import BaremetalDhcp.OptionBounds

/-!
# What the first bytes of an option array settle

A lookup of an option walks the array from its start, so the first bytes may decide it
whatever follows.  `lookup` reads a list of bytes and says how far they decide:

* `absent` — an END marker comes first;
* `found` — the option is met, with its length byte and the bytes from its data on;
* `unfinished start` — neither: the option may still start at index `start` or later.

`lookup_says` is the specification against `dhcp_get_option` on any memory that begins with
the bytes.  In the messages of the adapter the bytes behind those copied from the frame are
zeros, and behind the array stands memory that nobody has cleared.  `Room` says where an option
of some size may still start in such a memory; without room for three bytes there is no message
type, and without room for two no requested address.
-/

namespace BaremetalDhcp

/-- What a lookup of an option makes of the first bytes of an array. -/
inductive Lookup where
  | absent
  | found (length : UInt8) (data : List UInt8)
  | unfinished (start : ℕ)
deriving DecidableEq

/-- The lookup from index `ptr` on, when `skip` bytes of an earlier option are still to be
passed over. -/
def lookupFrom (option : UInt8) : (skip ptr : ℕ) → List UInt8 → Lookup
  | skip, ptr, [] => .unfinished (ptr + skip)
  | skip + 1, ptr, _ :: bytes => lookupFrom option skip (ptr + 1) bytes
  | 0, ptr, code :: bytes =>
      if code = dhcpOptEnd then .absent
      else if code = option then
        match bytes with
        -- the length byte is not there
        | [] => .unfinished ptr
        | length :: data => .found length data
      else if code = dhcpOptPad then lookupFrom option 0 (ptr + 1) bytes
      else
        match bytes with
        | [] => .unfinished (ptr + 2)
        | length :: data => lookupFrom option length.toNat (ptr + 2) data

/-- One step at the start of an option. -/
theorem lookupFrom_cons (option code : UInt8) (ptr : ℕ) (bytes : List UInt8) :
    lookupFrom option 0 ptr (code :: bytes) =
      if code = dhcpOptEnd then .absent
      else if code = option then
        match bytes with
        | [] => .unfinished ptr
        | length :: data => .found length data
      else if code = dhcpOptPad then lookupFrom option 0 (ptr + 1) bytes
      else
        match bytes with
        | [] => .unfinished (ptr + 2)
        | length :: data => lookupFrom option length.toNat (ptr + 2) data := by
  cases bytes <;> rfl

/-- The lookup from the start of the array. -/
def lookup (option : UInt8) (bytes : List UInt8) : Lookup := lookupFrom option 0 0 bytes

/-! ## The walk of the code, without its fuel -/

/-- The search of `dhcp_get_option` from an index on, with as many iterations as it takes. -/
def findFrom (mem : ℕ → UInt8) (option : UInt8) (ptr : ℕ) : Option (ℕ × UInt8) :=
  getOptionLoop mem option (309 - ptr) ptr

section Find

variable {mem : ℕ → UInt8} {option : UInt8} {ptr : ℕ}

theorem dhcpGetOption_eq_findFrom (msg : DhcpMessage) (behind : ℕ → UInt8) (option : UInt8) :
    dhcpGetOption msg behind option = findFrom (msg.optByte behind) option 0 := rfl

/-- More iterations than it takes change nothing. -/
theorem getOptionLoop_eq_findFrom {fuel : ℕ} (hle : 309 - ptr ≤ fuel) (hin : ptr < 308) :
    getOptionLoop mem option fuel ptr = findFrom mem option ptr := by
  obtain ⟨extra, rfl⟩ := Nat.exists_eq_add_of_le hle
  have hsame := getOptionTraced_fuel mem option (309 - ptr) ptr le_rfl (by omega) extra
  rw [findFrom, ← getOptionTraced_snd, hsame, getOptionTraced_snd]

theorem findFrom_of_le (hle : 308 ≤ ptr) : findFrom mem option ptr = none := by
  rw [findFrom]
  obtain hzero | hone : 309 - ptr = 0 ∨ 309 - ptr = 1 := by omega
  · rw [hzero, getOptionLoop]
  · rw [hone, getOptionLoop, if_neg fun h => absurd h.2 (Nat.not_lt.mpr hle)]

/-- One step of the walk. -/
theorem findFrom_step (hin : ptr < 308) (hend : mem ptr ≠ dhcpOptEnd) :
    findFrom mem option ptr =
      if mem ptr = option then some (ptr + 2, mem (ptr + 1))
      else if mem ptr = dhcpOptPad then findFrom mem option (ptr + 1)
      else findFrom mem option (ptr + (2 + (mem (ptr + 1)).toNat)) := by
  have hrest : ∀ next, ptr < next →
      getOptionLoop mem option (308 - ptr) next = findFrom mem option next := by
    intro next hlt
    by_cases hnext : next < 308
    · exact getOptionLoop_eq_findFrom (by omega) hnext
    · rw [findFrom_of_le (Nat.not_lt.mp hnext)]
      obtain ⟨fuel, hfuel⟩ : ∃ fuel, 308 - ptr = fuel + 1 := ⟨307 - ptr, by omega⟩
      rw [hfuel, getOptionLoop, if_neg fun h => hnext h.2]
  have hfuel : 309 - ptr = (308 - ptr) + 1 := by omega
  rw [findFrom, hfuel, getOptionLoop, if_pos ⟨hend, hin⟩, hrest _ (by omega),
    hrest _ (by omega)]

theorem findFrom_end (hend : mem ptr = dhcpOptEnd) : findFrom mem option ptr = none :=
  getOptionLoop_end hend option _

/-- Padding up to the end of the array holds no option. -/
theorem findFrom_pads (hoption : option ≠ dhcpOptPad)
    (hpad : ∀ i, ptr ≤ i → i < 308 → mem i = dhcpOptPad) : findFrom mem option ptr = none :=
  getOptionLoop_pads hoption _ _ hpad

/-- **What is found starts in the array**, at the walk's start or later. -/
theorem exists_start_of_findFrom {found : ℕ × UInt8} :
    findFrom mem option ptr = some found →
      ∃ start, ptr ≤ start ∧ start < 308 ∧ mem start = option ∧
        found = (start + 2, mem (start + 1)) := by
  -- one case per branch of the walk, which only moves forward
  induction hleft : 308 - ptr using Nat.strong_induction_on generalizing ptr with
  | _ left ih =>
      intro hfound
      by_cases hin : ptr < 308
      swap
      · rw [findFrom_of_le (Nat.not_lt.mp hin)] at hfound
        simp at hfound
      by_cases hend : mem ptr = dhcpOptEnd
      · rw [findFrom_end hend] at hfound
        simp at hfound
      rw [findFrom_step hin hend] at hfound
      split_ifs at hfound with hhit hpad
      · exact ⟨ptr, le_rfl, hin, hhit, (Option.some.inj hfound).symm⟩
      · obtain ⟨start, hle, hrest⟩ := ih _ (by omega) rfl hfound
        exact ⟨start, by omega, hrest⟩
      · obtain ⟨start, hle, hrest⟩ := ih _ (by omega) rfl hfound
        exact ⟨start, by omega, hrest⟩

end Find

/-! ## The specification -/

/-- What the outcome of a lookup says about the result of the walk on a memory that holds the
bytes up to index `last`. -/
inductive Lookup.Says (mem : ℕ → UInt8) (option : UInt8) (last : ℕ)
    (result : Option (ℕ × UInt8)) : Lookup → Prop
  | absent (hresult : result = none) : Says mem option last result .absent
  | found (ptr : ℕ) (length : UInt8) (data : List UInt8) (hresult : result = some (ptr, length))
      (hptr : ptr + data.length = last) (hdata : Holds mem ptr data) :
      Says mem option last result (.found length data)
  | unfinished (start : ℕ)
      (hlater : ∀ found, result = some found → ∃ ptr, start ≤ ptr ∧ ptr < 308 ∧
        mem ptr = option ∧ found = (ptr + 2, mem (ptr + 1)))
      (hhere : (∀ i, last ≤ i → i < start → mem i = 0) → result = findFrom mem option start)
      (hcut : start < last → start + 1 = last ∧ mem start = option) :
      Says mem option last result (.unfinished start)

/-- **The first bytes decide as much as `lookup` says.** -/
theorem lookupFrom_says {mem : ℕ → UInt8} (option : UInt8) :
    ∀ (skip ptr : ℕ) (bytes : List UInt8), Holds mem ptr bytes → ptr + bytes.length ≤ 308 →
      (lookupFrom option skip ptr bytes).Says mem option (ptr + bytes.length)
        (findFrom mem option (ptr + skip)) := by
  intro skip ptr bytes
  induction skip, ptr, bytes using lookupFrom.induct option with
  | case1 skip ptr =>
      intro _ _
      rw [lookupFrom]
      refine .unfinished _ (fun _ hfound => exists_start_of_findFrom hfound) (fun _ => rfl) ?_
      intro hlt
      rw [List.length_nil] at hlt
      omega
  | case2 skip ptr byte bytes ih =>
      intro hold hfit
      rw [holds_cons] at hold
      rw [List.length_cons] at hfit ⊢
      have hrest := ih hold.2 (by omega)
      have hlast : ptr + (bytes.length + 1) = ptr + 1 + bytes.length := by omega
      have hfrom : ptr + (skip + 1) = ptr + 1 + skip := by omega
      rw [lookupFrom, hlast, hfrom]
      exact hrest
  | case3 ptr bytes =>
      intro hold _
      rw [lookupFrom_cons, if_pos rfl]
      exact .absent (findFrom_end (holds_cons.mp hold).1)
  | case4 ptr hend =>
      -- the option, cut off behind its code
      intro hold _
      rw [lookupFrom_cons, if_neg hend, if_pos rfl]
      exact .unfinished _ (fun _ hfound => exists_start_of_findFrom hfound) (fun _ => rfl)
        fun _ => ⟨rfl, (holds_cons.mp hold).1⟩
  | case5 ptr length data hend =>
      intro hold hfit
      rw [holds_cons, holds_cons] at hold
      obtain ⟨hcode, hlength, hdata⟩ := hold
      have hin : ptr < 308 := by
        rw [List.length_cons] at hfit
        omega
      rw [lookupFrom_cons, if_neg hend, if_pos rfl]
      refine .found (ptr + 2) length data ?_ ?_ hdata
      · rw [Nat.add_zero ptr, findFrom_step hin (hcode ▸ hend), if_pos hcode, hlength]
      · rw [List.length_cons, List.length_cons]
        omega
  | case6 ptr bytes hend hne ih =>
      intro hold hfit
      obtain ⟨hcode, hrest⟩ := holds_cons.mp hold
      rw [List.length_cons] at hfit ⊢
      have hlast : ptr + (bytes.length + 1) = ptr + 1 + bytes.length := by omega
      rw [lookupFrom_cons, if_neg hend, if_neg hne, if_pos rfl, Nat.add_zero ptr,
        findFrom_step (by omega) (hcode ▸ hend), hcode, if_neg hne, if_pos rfl, hlast]
      exact ih hrest (by omega)
  | case7 ptr code hend hne hpad =>
      -- another option, cut off behind its code
      intro hold hfit
      have hcode := (holds_cons.mp hold).1
      rw [List.length_singleton] at hfit ⊢
      rw [lookupFrom_cons, if_neg hend, if_neg hne, if_neg hpad, Nat.add_zero ptr,
        findFrom_step (by omega) (hcode ▸ hend), hcode, if_neg hne, if_neg hpad]
      refine .unfinished _ (fun found hfound => ?_) (fun hzero => ?_) fun hlt =>
        absurd hlt (by omega)
      · obtain ⟨start, hle, hstart⟩ := exists_start_of_findFrom hfound
        exact ⟨start, by omega, hstart⟩
      · rw [hzero (ptr + 1) le_rfl (by omega)]
        rfl
  | case8 ptr code hend hne hpad length data ih =>
      intro hold hfit
      rw [holds_cons, holds_cons] at hold
      obtain ⟨hcode, hlength, hdata⟩ := hold
      rw [List.length_cons, List.length_cons] at hfit ⊢
      have hlast : ptr + (data.length + 1 + 1) = ptr + 2 + data.length := by omega
      rw [lookupFrom_cons, if_neg hend, if_neg hne, if_neg hpad, Nat.add_zero ptr,
        findFrom_step (by omega) (hcode ▸ hend), hcode, hlength, if_neg hne, if_neg hpad, hlast,
        ← Nat.add_assoc]
      exact ih hdata (by omega)

theorem lookup_says {mem : ℕ → UInt8} (option : UInt8) {bytes : List UInt8}
    (hold : Holds mem 0 bytes) (hfit : bytes.length ≤ 308) :
    (lookup option bytes).Says mem option bytes.length (findFrom mem option 0) := by
  have hsays := lookupFrom_says option 0 0 bytes hold (by omega)
  rw [Nat.zero_add] at hsays
  exact hsays

section Outcomes

variable {mem : ℕ → UInt8} {option : UInt8} {bytes : List UInt8} {start : ℕ}

theorem findFrom_of_absent (hold : Holds mem 0 bytes) (hfit : bytes.length ≤ 308)
    (hlookup : lookup option bytes = .absent) : findFrom mem option 0 = none := by
  have hsays := lookup_says option hold hfit
  rw [hlookup] at hsays
  cases hsays with
  | absent hresult => exact hresult

theorem findFrom_of_found (hold : Holds mem 0 bytes) (hfit : bytes.length ≤ 308)
    {length : UInt8} {data : List UInt8} (hlookup : lookup option bytes = .found length data) :
    ∃ ptr, findFrom mem option 0 = some (ptr, length) ∧ ptr + data.length = bytes.length ∧
      Holds mem ptr data := by
  have hsays := lookup_says option hold hfit
  rw [hlookup] at hsays
  cases hsays with
  | found ptr _ _ hresult hptr hdata => exact ⟨ptr, hresult, hptr, hdata⟩

/-- **An unfinished lookup can be completed**: an option that stands where it may start, with
zeros before it, is found. -/
theorem findFrom_of_completed (hend : option ≠ dhcpOptEnd) (hold : Holds mem 0 bytes)
    (hfit : bytes.length ≤ 308) (hlookup : lookup option bytes = .unfinished start)
    (hin : start < 308) (hzero : ∀ i, bytes.length ≤ i → i < start → mem i = 0)
    (hcode : bytes.length ≤ start → mem start = option) :
    findFrom mem option 0 = some (start + 2, mem (start + 1)) := by
  have hsays := lookup_says option hold hfit
  rw [hlookup] at hsays
  cases hsays with
  | unfinished _ _ hhere hcut =>
      have hstart : mem start = option := by
        by_cases hlt : start < bytes.length
        · exact (hcut hlt).2
        · exact hcode (Nat.not_lt.mp hlt)
      rw [hhere hzero, findFrom_step hin (by rw [hstart]; exact hend), if_pos hstart]

/-- Only an option that is cut off behind its code starts among the bytes. -/
theorem start_of_cut (hfit : bytes.length ≤ 308)
    (hlookup : lookup option bytes = .unfinished start) (hlt : start < bytes.length) :
    start + 1 = bytes.length := by
  have hsays := lookup_says option (holds_bytesAt bytes) hfit
  rw [hlookup] at hsays
  cases hsays with
  | unfinished _ _ _ hcut => exact (hcut hlt).1

/-- Where an unfinished lookup goes on, in any memory. -/
theorem exists_start_of_unfinished (hold : Holds mem 0 bytes) (hfit : bytes.length ≤ 308)
    (hlookup : lookup option bytes = .unfinished start) {found : ℕ × UInt8}
    (hfound : findFrom mem option 0 = some found) :
    ∃ ptr, start ≤ ptr ∧ ptr < 308 ∧ mem ptr = option ∧ found = (ptr + 2, mem (ptr + 1)) := by
  have hsays := lookup_says option hold hfit
  rw [hlookup] at hsays
  cases hsays with
  | unfinished _ hlater => exact hlater found hfound

end Outcomes

/-! ## Room for an option -/

/-- An option of the given size may start at the index, when only the first `copied` bytes of
the array can be other than 0: the bytes behind the array can be. -/
def Room (copied start size : ℕ) : Prop :=
  start < copied ∧ (copied < 308 → start + size ≤ copied)

instance decidableRoom (copied start size : ℕ) : Decidable (Room copied start size) :=
  inferInstanceAs (Decidable (_ ∧ (_ → _)))

/-- With nothing but zeros behind the bytes there is no room to complete it. -/
theorem not_room_of_unfinished {option : UInt8} {bytes : List UInt8} {start size : ℕ}
    (hsize : 2 ≤ size) (hshort : bytes.length < 308)
    (hlookup : lookup option bytes = .unfinished start) : ¬ Room bytes.length start size := by
  rintro ⟨hlt, hfits⟩
  have hlast := start_of_cut hshort.le hlookup hlt
  have hroom := hfits hshort
  omega

section Messages

variable {msg : DhcpMessage} {behind : ℕ → UInt8}

theorem one_le_of_ne_zero {length : UInt8} (h : length ≠ 0) : 1 ≤ length := by
  rw [UInt8.le_iff_toNat_le]
  exact Nat.pos_of_ne_zero fun hzero => h (UInt8.toNat_inj.mp hzero)

/-- A type that is met in the first bytes is the type of the message. -/
theorem dhcpGetMessageType_of_found {bytes : List UInt8} {length type : UInt8}
    {data : List UInt8} (hold : Holds (msg.optByte behind) 0 bytes) (hfit : bytes.length ≤ 308)
    (hlookup : lookup dhcpOptMessageType bytes = .found length (type :: data))
    (hlen : length ≠ 0) : dhcpGetMessageType msg behind = type := by
  obtain ⟨ptr, hfound, -, hdata⟩ := findFrom_of_found hold hfit hlookup
  rw [dhcpGetMessageType, dhcpGetOption_eq_findFrom, hfound]
  exact (if_pos (one_le_of_ne_zero hlen)).trans (holds_cons.mp hdata).1

theorem optionWord_of_absent {option : UInt8} {bytes : List UInt8}
    (hold : Holds (msg.optByte behind) 0 bytes) (hfit : bytes.length ≤ 308)
    (hlookup : lookup option bytes = .absent) : optionWord msg behind option = none := by
  rw [optionWord, dhcpGetOption_eq_findFrom, findFrom_of_absent hold hfit hlookup]

/-- An address that is met in the first bytes is read from where its data start. -/
theorem optionWord_of_found {option length : UInt8} {bytes data : List UInt8}
    (hold : Holds (msg.optByte behind) 0 bytes) (hfit : bytes.length ≤ 308)
    (hlookup : lookup option bytes = .found length data) :
    ∃ ptr, ptr + data.length = bytes.length ∧ Holds (msg.optByte behind) ptr data ∧
      optionWord msg behind option = if length = 4 then
        some (ipToUint32 (msg.optByte behind ptr) (msg.optByte behind (ptr + 1))
          (msg.optByte behind (ptr + 2)) (msg.optByte behind (ptr + 3))) else none := by
  obtain ⟨ptr, hfound, hptr, hdata⟩ := findFrom_of_found hold hfit hlookup
  refine ⟨ptr, hptr, hdata, ?_⟩
  rw [optionWord, dhcpGetOption_eq_findFrom, hfound]

/-- A type other than 0 stands among the copied bytes, or all of the array is copied. -/
theorem lt_copied_of_type {copied : ℕ}
    (hzero : ∀ i, copied ≤ i → i < 308 → msg.optByte behind i = 0)
    {ptr : ℕ} {length : UInt8}
    (hget : dhcpGetOption msg behind dhcpOptMessageType = some (ptr, length))
    (hlen : 1 ≤ length) (hbyte : msg.optByte behind ptr ≠ 0) (hshort : copied < 308) :
    ptr < copied := by
  obtain ⟨start, -, hin, hcode, hfound⟩ := exists_start_of_findFrom
    ((dhcpGetOption_eq_findFrom msg behind _).symm.trans hget)
  obtain ⟨rfl, rfl⟩ : ptr = start + 2 ∧ length = msg.optByte behind (start + 1) :=
    Prod.mk.injEq .. ▸ hfound
  by_contra hout
  have hlt : start < copied := by
    by_contra hge
    rw [hzero start (Nat.not_lt.mp hge) hin] at hcode
    exact absurd hcode (by decide)
  obtain hcopied | hpast : start + 1 < copied ∨ copied ≤ start + 1 := by omega
  · exact hbyte (hzero _ (by omega) (by omega))
  · rw [hzero _ hpast (by omega)] at hlen
    exact absurd hlen (by decide)

/-- **Without room for three bytes there is no type.** -/
theorem dhcpGetMessageType_of_no_room (copied start : ℕ)
    (hzero : ∀ i, copied ≤ i → i < 308 → msg.optByte behind i = 0)
    (hlater : ∀ found, dhcpGetOption msg behind dhcpOptMessageType = some found →
      ∃ ptr, start ≤ ptr ∧ ptr < 308 ∧ msg.optByte behind ptr = dhcpOptMessageType ∧
        found = (ptr + 2, msg.optByte behind (ptr + 1)))
    (hroom : ¬ Room copied start 3) : dhcpGetMessageType msg behind = 0 := by
  by_contra hne
  rw [dhcpGetMessageType] at hne
  split at hne
  swap
  · exact hne rfl
  next found length hget =>
  split_ifs at hne with hlen
  swap
  · exact hne rfl
  obtain ⟨ptr, hle, hin, hcode, hfound⟩ := hlater _ hget
  obtain ⟨rfl, -⟩ : found = ptr + 2 ∧ length = msg.optByte behind (ptr + 1) :=
    Prod.mk.injEq .. ▸ hfound
  have hlt : ptr < copied := by
    by_contra hge
    rw [hzero ptr (Nat.not_lt.mp hge) hin] at hcode
    exact absurd hcode (by decide)
  refine hroom ⟨by omega, fun hshort => ?_⟩
  have hend := lt_copied_of_type hzero hget hlen hne hshort
  omega

/-- **Without room for two bytes there is no address.** -/
theorem optionWord_of_no_room {option : UInt8} (copied start : ℕ) (hoption : option ≠ dhcpOptPad)
    (hzero : ∀ i, copied ≤ i → i < 308 → msg.optByte behind i = 0)
    (hlater : ∀ found, dhcpGetOption msg behind option = some found →
      ∃ ptr, start ≤ ptr ∧ ptr < 308 ∧ msg.optByte behind ptr = option ∧
        found = (ptr + 2, msg.optByte behind (ptr + 1)))
    (hroom : ¬ Room copied start 2) : optionWord msg behind option = none := by
  rw [optionWord]
  cases hget : dhcpGetOption msg behind option with
  | none => rfl
  | some found =>
      obtain ⟨ptr, hle, hin, hcode, rfl⟩ := hlater _ hget
      refine if_neg fun hlen => hroom ?_
      have hlt : ptr < copied := by
        by_contra hge
        rw [hzero ptr (Nat.not_lt.mp hge) hin] at hcode
        exact hoption hcode.symm
      refine ⟨by omega, fun hshort => ?_⟩
      by_contra hout
      rw [hzero (ptr + 1) (by omega) (by omega)] at hlen
      exact absurd hlen (by decide)

end Messages

end BaremetalDhcp
