import BaremetalDhcp.Kernel
import BaremetalDhcp.OptionBounds

/-!
# The payload that the UDP header declares

`CKernel::Run` computes the length of the DHCP payload from the UDP header.
`ProcessDHCPHdr` parses that many bytes to learn the message type; `CraftDHCPOffer` and
`HandleDHCPDecline` parse the same buffer again, but with `sizeof(DHCPHdr)`.  This module
says what the declared length decides.

* `getOptionTraced_congr` — a lookup depends on the bytes it reads, and
  `lt_of_found` — these stand before the data it returns; so a message type that is found
  does not depend on anything behind its own byte.
* `trailing_bytes_ignored` — the bytes behind the declared payload do not change the type,
  the OFFER or the pool.

A lookup that reads past the 308 bytes of the option array is counted as one that finds no
type (`messageTypeInside`); what it returns in the code depends on the memory behind the
local message.
-/

namespace BaremetalDhcp

open LittleEndian

/-! ## What a lookup depends on -/

section Lookup

variable {mem mem' : ℕ → UInt8} {option : UInt8}

/-- A lookup depends on the bytes it reads. -/
theorem getOptionTraced_congr :
    ∀ fuel ptr, (∀ i ∈ (getOptionTraced mem option fuel ptr).1, mem i = mem' i) →
      getOptionTraced mem' option fuel ptr = getOptionTraced mem option fuel ptr := by
  intro fuel
  induction fuel with
  | zero => intro ptr _; rfl
  | succ fuel ih =>
      intro ptr hreads
      rw [getOptionTraced] at hreads ⊢
      -- the byte under the cursor is read in every branch
      have hptr : mem ptr = mem' ptr := by
        split_ifs at hreads
        all_goals exact hreads ptr (by simp)
      rw [← hptr, getOptionTraced]
      split_ifs at hreads ⊢ with hin hhit hpad
      · rw [hreads (ptr + 1) (by simp)]
      · rw [ih _ fun i hi => hreads i (List.mem_cons_of_mem _ hi)]
      · rw [← hreads (ptr + 1) (by simp), ih _ fun i hi =>
          hreads i (List.mem_cons_of_mem _ (List.mem_cons_of_mem _ hi))]
      · rfl

/-- Every byte a successful lookup reads stands before the data. -/
theorem lt_of_found {found : ℕ} {length : UInt8} :
    ∀ fuel ptr, getOptionLoop mem option fuel ptr = some (found, length) →
      ∀ i ∈ (getOptionTraced mem option fuel ptr).1, i < found := by
  intro fuel
  induction fuel with
  | zero => intro ptr hfound; simp [getOptionLoop] at hfound
  | succ fuel ih =>
      intro ptr hfound i hi
      have hle : ∀ ptr, getOptionLoop mem option fuel ptr = some (found, length) → ptr < found := by
        intro ptr hrest
        have hread : ptr ∈ (getOptionTraced mem option fuel ptr).1 := by
          cases fuel with
          | zero => simp [getOptionLoop] at hrest
          | succ fuel =>
              rw [getOptionTraced]
              split_ifs <;> simp
        exact ih ptr hrest ptr hread
      rw [getOptionLoop] at hfound
      rw [getOptionTraced] at hi
      split_ifs at hfound hi with hin hhit hpad
      · simp only [Option.some.injEq, Prod.mk.injEq] at hfound
        simp only [List.mem_cons, List.not_mem_nil, or_false] at hi
        omega
      · obtain rfl | hi := List.mem_cons.mp hi
        · have hlt := hle _ hfound
          omega
        · exact ih _ hfound i hi
      · have hlt := hle _ hfound
        obtain rfl | hi := List.mem_cons.mp hi
        · omega
        obtain rfl | hi := List.mem_cons.mp hi
        · omega
        · exact ih _ hfound i hi

/-- **A found option stays found** in every memory that has the same bytes before its
data. -/
theorem getOptionLoop_of_agree {found : ℕ} {length : UInt8} {fuel ptr : ℕ}
    (h : getOptionLoop mem option fuel ptr = some (found, length))
    (hagree : ∀ i < found, mem i = mem' i) :
    getOptionLoop mem' option fuel ptr = some (found, length) := by
  have hsame := getOptionTraced_congr fuel ptr fun i hi => hagree i (lt_of_found fuel ptr h i hi)
  rw [← getOptionTraced_snd, hsame, getOptionTraced_snd, h]

end Lookup

/-! ## The message type -/

/-- The indices `dhcp_get_message_type` reads: those of the lookup, then the type. -/
def messageTypeReads (msg : DhcpMessage) (behind : ℕ → UInt8) : List ℕ :=
  dhcpGetOptionReads msg behind dhcpOptMessageType ++
    match dhcpGetOption msg behind dhcpOptMessageType with
    | some (ptr, length) => if 1 ≤ length then [ptr] else []
    | none => []

/-- The message type, where a parse that reads past the option array counts as one that
finds none. -/
def messageTypeInside (msg : DhcpMessage) (behind : ℕ → UInt8) : UInt8 :=
  if ∀ i ∈ messageTypeReads msg behind, i < 308 then dhcpGetMessageType msg behind else 0

/-- `CDHCPServer::ProcessDHCPHdr` under the same convention. -/
def processDHCPHdrInside (hdr : DhcpHdr) (nLength : ℕ) (behind : ℕ → UInt8) : UInt8 :=
  if nLength < dhcpFixedLen then 0
  else if be32 hdr.magic ≠ dhcpMagicCookie then 0
  else messageTypeInside (hdrToMsg hdr nLength) behind

section MessageType

variable {msg msg' : DhcpMessage} {behind behind' : ℕ → UInt8} {type : UInt8}

theorem optByte_of_lt {i : ℕ} (hi : i < 308) (behind : ℕ → UInt8) :
    msg.optByte behind i = msg.options ⟨i, hi⟩ := by
  rw [DhcpMessage.optByte, dif_pos hi]

/-- A type other than 0 is the first data byte of the option that was found. -/
theorem dhcpGetMessageType_eq_iff (htype : type ≠ 0) :
    dhcpGetMessageType msg behind = type ↔
      ∃ ptr length, dhcpGetOption msg behind dhcpOptMessageType = some (ptr, length) ∧
        1 ≤ length ∧ msg.optByte behind ptr = type := by
  rw [dhcpGetMessageType]
  constructor
  · intro h
    split at h
    · next ptr length hget =>
        split_ifs at h with hlen
        · exact ⟨ptr, length, hget, hlen, h⟩
        · exact absurd h.symm htype
    · exact absurd h.symm htype
  · rintro ⟨ptr, length, hget, hlen, hbyte⟩
    rw [hget]
    exact (if_pos hlen).trans hbyte

/-- What the memory behind the message holds does not matter to a parse that stays
inside. -/
theorem messageTypeInside_behind (behind behind' : ℕ → UInt8) :
    messageTypeInside msg behind = messageTypeInside msg behind' := by
  have hagree : ∀ b b' : ℕ → UInt8, (∀ i ∈ messageTypeReads msg b, i < 308) →
      messageTypeReads msg b' = messageTypeReads msg b ∧
        dhcpGetMessageType msg b' = dhcpGetMessageType msg b := by
    intro b b' hreads
    have hbyte : ∀ i ∈ messageTypeReads msg b, msg.optByte b i = msg.optByte b' i :=
      fun i hi => (optByte_of_lt (hreads i hi) b).trans (optByte_of_lt (hreads i hi) b').symm
    have htraced := getOptionTraced_congr 309 0 fun i hi =>
      hbyte i (List.mem_append_left _ hi)
    have hget : dhcpGetOption msg b' dhcpOptMessageType =
        dhcpGetOption msg b dhcpOptMessageType := by
      rw [dhcpGetOption, dhcpGetOption, ← getOptionTraced_snd, htraced, getOptionTraced_snd]
    refine ⟨?_, ?_⟩
    · rw [messageTypeReads, messageTypeReads, hget, dhcpGetOptionReads, htraced,
        dhcpGetOptionReads]
    · rw [dhcpGetMessageType, dhcpGetMessageType, hget]
      split
      · next ptr length hsome =>
          split_ifs with hlen
          · refine (hbyte ptr (List.mem_append_right _ ?_)).symm
            rw [hsome]
            simp [hlen]
          · rfl
      · rfl
  unfold messageTypeInside
  split_ifs with h h' h'
  · exact (hagree behind behind' h).2.symm
  · exact absurd (fun i hi => h i ((hagree behind behind' h).1 ▸ hi)) h'
  · exact absurd (fun i hi => h' i ((hagree behind' behind h').1 ▸ hi)) h
  · rfl

/-- A type that is found inside stands in the array. -/
theorem exists_of_messageTypeInside (h : messageTypeInside msg behind = type)
    (htype : type ≠ 0) :
    ∃ ptr length, dhcpGetOption msg behind dhcpOptMessageType = some (ptr, length) ∧
      1 ≤ length ∧ ptr < 308 ∧ msg.optByte behind ptr = type := by
  unfold messageTypeInside at h
  split_ifs at h with hreads
  · obtain ⟨ptr, length, hget, hlen, hbyte⟩ := (dhcpGetMessageType_eq_iff htype).mp h
    refine ⟨ptr, length, hget, hlen, hreads ptr (List.mem_append_right _ ?_), hbyte⟩
    rw [hget]
    simp [hlen]
  · exact absurd h.symm htype

/-- A type that `ProcessDHCPHdr` returns is the one of the message. -/
theorem messageTypeInside_of_process {hdr : DhcpHdr} {n : ℕ}
    (h : processDHCPHdrInside hdr n behind ≠ 0) :
    messageTypeInside (hdrToMsg hdr n) behind = processDHCPHdrInside hdr n behind := by
  unfold processDHCPHdrInside at h ⊢
  split_ifs at h ⊢ with hshort hcookie
  · exact absurd rfl h
  · exact absurd rfl h
  · rfl

/-- **A found type stays found** in every message that has the same bytes up to it. -/
theorem dhcpGetMessageType_of_agree {ptr : ℕ} {length : UInt8}
    (hget : dhcpGetOption msg behind dhcpOptMessageType = some (ptr, length))
    (hagree : ∀ i ≤ ptr, msg.optByte behind i = msg'.optByte behind' i) :
    dhcpGetOption msg' behind' dhcpOptMessageType = some (ptr, length) ∧
      dhcpGetMessageType msg' behind' = dhcpGetMessageType msg behind := by
  have hget' : dhcpGetOption msg' behind' dhcpOptMessageType = some (ptr, length) :=
    getOptionLoop_of_agree hget fun i hi => hagree i hi.le
  refine ⟨hget', ?_⟩
  rw [dhcpGetMessageType, dhcpGetMessageType, hget, hget']
  simp only [hagree ptr le_rfl]

end MessageType

/-! ## The declared length -/

section Header

variable {mem mem' : ℕ → UInt8} {p n : ℕ}

/-- The option bytes of a converted message: those of the declared payload, and zeros. -/
theorem optByte_hdrToMsg (hdr : DhcpHdr) (nLength : ℕ) (behind : ℕ → UInt8) {i : ℕ}
    (hi : i < 308) :
    (hdrToMsg hdr nLength).optByte behind i =
      if dhcpFixedLen + i < nLength then hdr.options ⟨i, by omega⟩ else 0 := by
  rw [optByte_of_lt hi, options_hdrToMsg]

/-- The options of two headers that agree on their first bytes. -/
theorem options_load_congr (h : ∀ i < n, mem (p + i) = mem' (p + i)) {i : ℕ} (hi : i < 312)
    (hin : dhcpFixedLen + i < n) :
    (DhcpHdr.load mem p).options ⟨i, hi⟩ = (DhcpHdr.load mem' p).options ⟨i, hi⟩ := by
  have hbyte := h (dhcpFixedLen + i) hin
  rw [← Nat.add_assoc] at hbyte
  exact hbyte

end Header

/-! ## The builds of the server -/

/-- A message is handled by the client, the address it asks for and the time alone. -/
def PoolCalls.ReadsClient {P : Type} (calls : PoolCalls P) : Prop :=
  ∀ server (a a' : Arrival), a.mac = a'.mac → a.curTime = a'.curTime →
    calls.discover server a = calls.discover server a' ∧
      calls.decline server a = calls.decline server a' ∧
      ∀ ip, calls.request server ip a = calls.request server ip a'

theorem LeaseOps.readsClient {P : Type} (ops : LeaseOps P) : ops.calls.ReadsClient := by
  intro server a a' hmac htime
  simp only [LeaseOps.calls, hmac, htime, and_self, implies_true]

theorem bmvarCalls_readsClient : bmvarCalls.ReadsClient := by
  intro server a a' _ htime
  simp only [bmvarCalls, htime, and_self, implies_true]

theorem bmuniCalls_readsClient : bmuniCalls.ReadsClient := by
  intro server a a' _ htime
  simp only [bmuniCalls, htime, and_self, implies_true]

theorem nprcCalls_readsClient (W : ℕ) : (nprcCalls : PoolCalls (NprcPool W)).ReadsClient :=
  fun _ _ _ _ _ => ⟨rfl, rfl, fun _ => rfl⟩

/-- `DHCP_LEASE_MODE_*`, with the constants of the build. -/
inductive LeaseMode where
  | array (maxLeases : UInt16)
  | bmvar
  | bmuni
  | nprc (W : ℕ)
  | hashmap

namespace LeaseMode

/-- The pool of the build. -/
def Pool : LeaseMode → Type
  | array maxLeases => ArrayPool maxLeases
  | bmvar => BmPoolVar
  | bmuni => BmPoolUni
  | nprc W => NprcPool W
  | hashmap => HashPool

/-- The adapter of the build. -/
def adapter : (mode : LeaseMode) → Adapter mode.Pool
  | array maxLeases => arrayAdapter maxLeases
  | bmvar => bmvarAdapter
  | bmuni => bmuniAdapter
  | nprc W => nprcAdapter W
  | hashmap => hashmapAdapter

theorem readsClient : ∀ mode : LeaseMode, mode.adapter.calls.ReadsClient
  | array maxLeases => (arrayOps maxLeases).readsClient
  | bmvar => bmvarCalls_readsClient
  | bmuni => bmuniCalls_readsClient
  | nprc W => nprcCalls_readsClient W
  | hashmap => hashOps.readsClient

end LeaseMode

/-! ## What a reply takes of its request -/

/-- Two headers agree in everything but the options. -/
def SameFixed (hdr hdr' : DhcpHdr) : Prop :=
  ∀ (nLength nLength' : ℕ) (options : Bytes 308),
    { hdrToMsg hdr nLength with options := options } =
      { hdrToMsg hdr' nLength' with options := options }

theorem sameFixed_load {mem mem' : ℕ → UInt8} {p : ℕ}
    (h : ∀ i < dhcpFixedLen, mem (p + i) = mem' (p + i)) :
    SameFixed (DhcpHdr.load mem p) (DhcpHdr.load mem' p) :=
  fun nLength _ options => fixed_load_congr h nLength options

namespace SameFixed

variable {hdr hdr' : DhcpHdr} (h : SameFixed hdr hdr') (nLength nLength' : ℕ)
include h

theorem magic : be32 hdr.magic = be32 hdr'.magic :=
  congrArg DhcpMessage.magicCookie (h 0 0 (hdrToMsg hdr 0).options)

theorem mac (env env' : Surroundings) :
    (arrivalOf env hdr nLength).mac = (arrivalOf env' hdr' nLength').mac := by
  funext i
  exact congrFun (congrArg DhcpMessage.chaddr (h nLength nLength' (hdrToMsg hdr 0).options)) _

theorem buildOffer {P : Type} (env env' : Surroundings) (server : DhcpServer P) (ip : UInt32) :
    dhcpBuildOffer server (arrivalOf env hdr nLength).request ip =
      dhcpBuildOffer server (arrivalOf env' hdr' nLength').request ip := by
  change dhcpBuildOffer server { hdrToMsg hdr nLength with options := fun _ => 0 } ip = _
  rw [h nLength nLength' fun _ => 0]
  rfl

theorem buildAck {P : Type} (env env' : Surroundings) (server : DhcpServer P) (ip : UInt32) :
    dhcpBuildAck server (arrivalOf env hdr nLength).request ip =
      dhcpBuildAck server (arrivalOf env' hdr' nLength').request ip := by
  change dhcpBuildAck server { hdrToMsg hdr nLength with options := fun _ => 0 } ip = _
  rw [h nLength nLength' fun _ => 0]
  rfl

theorem buildNak (env env' : Surroundings) :
    dhcpBuildNak (arrivalOf env hdr nLength).request =
      dhcpBuildNak (arrivalOf env' hdr' nLength').request := by
  change dhcpBuildNak { hdrToMsg hdr nLength with options := fun _ => 0 } = _
  rw [h nLength nLength' fun _ => 0]
  rfl

variable {env env' : Surroundings} (htime : env.micros = env'.micros) (mode : LeaseMode)
  (server : DhcpServer mode.Pool)
include htime

/-- Two DISCOVERs of one client get the same OFFER. -/
theorem craftDHCPOffer (hd : (arrivalOf env hdr dhcpLen).msgType = dhcpDiscover)
    (hd' : (arrivalOf env' hdr' dhcpLen).msgType = dhcpDiscover) :
    craftDHCPOffer mode.adapter env server hdr =
      craftDHCPOffer mode.adapter env' server hdr' := by
  have hfound := (mode.readsClient server _ _ (h.mac dhcpLen dhcpLen env env')
    (congrArg tsInSec htime)).1
  rw [BaremetalDhcp.craftDHCPOffer, BaremetalDhcp.craftDHCPOffer, craftDHCP_eq, craftDHCP_eq,
    processMessage_discover hd, processMessage_discover hd', hfound,
    h.buildOffer dhcpLen dhcpLen env env']

/-- Two DECLINEs of one client release the same. -/
theorem handleDHCPDecline (hc : (arrivalOf env hdr dhcpLen).msgType = dhcpDecline)
    (hc' : (arrivalOf env' hdr' dhcpLen).msgType = dhcpDecline) :
    handleDHCPDecline mode.adapter env server hdr =
      handleDHCPDecline mode.adapter env' server hdr' := by
  have hreleased := (mode.readsClient server _ _ (h.mac dhcpLen dhcpLen env env')
    (congrArg tsInSec htime)).2.1
  rw [BaremetalDhcp.handleDHCPDecline, BaremetalDhcp.handleDHCPDecline,
    processMessage_decline hc, processMessage_decline hc', hreleased]

/-- Two REQUESTs of one client for one address get the same answer. -/
theorem craftDHCPAck {ip : UInt32}
    (hr : (arrivalOf env hdr nLength).msgType = dhcpRequest)
    (hip : (arrivalOf env hdr nLength).requestedIp = some ip)
    (hr' : (arrivalOf env' hdr' nLength').msgType = dhcpRequest)
    (hip' : (arrivalOf env' hdr' nLength').requestedIp = some ip) :
    craftDHCPAck mode.adapter env server hdr nLength =
      craftDHCPAck mode.adapter env' server hdr' nLength' := by
  have hgranted := (mode.readsClient server _ _ (h.mac nLength nLength' env env')
    (congrArg tsInSec htime)).2.2 ip
  rw [BaremetalDhcp.craftDHCPAck, BaremetalDhcp.craftDHCPAck, craftDHCP_eq, craftDHCP_eq,
    processMessage_request hr hip, processMessage_request hr' hip', hgranted,
    h.buildAck nLength nLength' env env', h.buildNak nLength nLength' env env']

end SameFixed

/-! ## Bytes behind the payload -/

section Trailing

variable {buffer buffer' : ℕ → UInt8} {p n : ℕ}

/-- The parse of the declared payload gives the same message for both buffers. -/
theorem hdrToMsg_declared_congr (hn : dhcpFixedLen ≤ n)
    (h : ∀ i < n, buffer (p + i) = buffer' (p + i)) :
    hdrToMsg (DhcpHdr.load buffer p) n = hdrToMsg (DhcpHdr.load buffer' p) n := by
  exact hdrToMsg_load_agree (fun i hi => h i (Nat.lt_of_lt_of_le hi hn)) fun i _ hin => h _ hin

/-- **A type in the declared payload is found by every longer parse**, whatever stands
behind the payload and behind the message. -/
theorem msgType_of_declared {type : UInt8} {behind behind' : ℕ → UInt8} (htype : type ≠ 0)
    (h : ∀ i < n, buffer (p + i) = buffer' (p + i))
    (hfound : messageTypeInside (hdrToMsg (DhcpHdr.load buffer p) n) behind = type) :
    dhcpGetMessageType (hdrToMsg (DhcpHdr.load buffer' p) dhcpLen) behind' = type := by
  obtain ⟨ptr, length, hget, hlen, hptr, hbyte⟩ := exists_of_messageTypeInside hfound htype
  -- the type is not one of the zeros behind the payload
  have hdeclared : dhcpFixedLen + ptr < n := by
    by_contra hout
    rw [optByte_hdrToMsg _ _ _ hptr, if_neg hout] at hbyte
    exact htype hbyte.symm
  have hagree : ∀ i ≤ ptr, (hdrToMsg (DhcpHdr.load buffer p) n).optByte behind i =
      (hdrToMsg (DhcpHdr.load buffer' p) dhcpLen).optByte behind' i := by
    intro i hi
    have hin : dhcpFixedLen + i < n := by omega
    have hlen : dhcpFixedLen + i < dhcpLen := by
      unfold dhcpFixedLen dhcpLen
      omega
    rw [optByte_hdrToMsg _ _ _ (by omega), optByte_hdrToMsg _ _ _ (by omega), if_pos hin,
      if_pos hlen]
    exact options_load_congr h _ hin
  rw [(dhcpGetMessageType_of_agree hget hagree).2, (dhcpGetMessageType_eq_iff htype).mpr
    ⟨ptr, length, hget, hlen, hbyte⟩]

end Trailing

/-- **Bytes behind the declared payload are ignored.**  For two buffers that agree on the
first `n` bytes, whatever stands behind them and behind the local messages,
`ProcessDHCPHdr` returns the same type; a DISCOVER is handled as a DISCOVER for both, with
the same reply, length and pool, and so is a DECLINE. -/
theorem trailing_bytes_ignored (mode : LeaseMode) (env : Surroundings)
    (server : DhcpServer mode.Pool) (buffer buffer' behindMsg' behindReq' : ℕ → UInt8)
    (p n : ℕ) (hn : dhcpFixedLen ≤ n) (hsame : ∀ i < n, buffer (p + i) = buffer' (p + i)) :
    let hdr := DhcpHdr.load buffer p
    let hdr' := DhcpHdr.load buffer' p
    let env' : Surroundings := { env with behindMsg := behindMsg', behindReq := behindReq' }
    let type := processDHCPHdrInside hdr n env.behindMsg
    processDHCPHdrInside hdr' n env'.behindMsg = type ∧
      (type = dhcpDiscover →
        (arrivalOf env hdr dhcpLen).msgType = dhcpDiscover ∧
          (arrivalOf env' hdr' dhcpLen).msgType = dhcpDiscover ∧
          craftDHCPOffer mode.adapter env server hdr =
            craftDHCPOffer mode.adapter env' server hdr') ∧
      (type = dhcpDecline →
        (arrivalOf env hdr dhcpLen).msgType = dhcpDecline ∧
          (arrivalOf env' hdr' dhcpLen).msgType = dhcpDecline ∧
          handleDHCPDecline mode.adapter env server hdr =
            handleDHCPDecline mode.adapter env' server hdr') := by
  intro hdr hdr' env' type
  have hmsg : hdrToMsg hdr n = hdrToMsg hdr' n := hdrToMsg_declared_congr hn hsame
  have hfixed : SameFixed hdr hdr' :=
    sameFixed_load fun i hi => hsame i (Nat.lt_of_lt_of_le hi hn)
  -- both parses of both buffers find a type that is not 0
  have htypes : type ≠ 0 → (arrivalOf env hdr dhcpLen).msgType = type ∧
      (arrivalOf env' hdr' dhcpLen).msgType = type := by
    intro hne
    have hfound : messageTypeInside (hdrToMsg hdr n) env.behindMsg = type :=
      messageTypeInside_of_process hne
    exact ⟨msgType_of_declared hne (fun _ _ => rfl) hfound, msgType_of_declared hne hsame hfound⟩
  have htime : env.micros = env'.micros := rfl
  refine ⟨?_, fun hd => ?_, fun hc => ?_⟩
  · show processDHCPHdrInside hdr' n behindMsg' = processDHCPHdrInside hdr n env.behindMsg
    unfold processDHCPHdrInside
    rw [hfixed.magic, hmsg, messageTypeInside_behind behindMsg' env.behindMsg]
  · rw [hd] at htypes
    obtain ⟨hd₁, hd₂⟩ := htypes (by decide)
    exact ⟨hd₁, hd₂, hfixed.craftDHCPOffer htime mode server hd₁ hd₂⟩
  · rw [hc] at htypes
    obtain ⟨hc₁, hc₂⟩ := htypes (by decide)
    exact ⟨hc₁, hc₂, hfixed.handleDHCPDecline htime mode server hc₁ hc₂⟩

/-- A DHCP payload that ends with its message type. -/
def cutDiscover : List UInt8 :=
  List.replicate 236 0 ++ bytes32 (be32 dhcpMagicCookie) ++ [dhcpOptMessageType, 1, dhcpDiscover]

theorem length_cutDiscover : cutDiscover.length = 243 := by
  simp only [cutDiscover, List.length_append, List.length_replicate, length_bytes32,
    List.length_cons, List.length_nil]

/-- A DISCOVER of 243 bytes with nothing behind it, and with the rest of an older frame. -/
theorem trailing_bytes_ignored_cut_discover :
    let server := dhcpInitServerNprc 64 (poolConfig 100 103 10)
    let env : Surroundings := ⟨fun _ => 2, 0, fun _ => 0, fun _ => 0⟩
    let hdr := DhcpHdr.load (bytesAt cutDiscover) 0
    let hdr' := DhcpHdr.load (bytesAt (cutDiscover ++ List.replicate 309 dhcpOptMessageType)) 0
    processDHCPHdrInside hdr 243 (fun _ => 0) = dhcpDiscover ∧
      craftDHCPOffer (nprcAdapter 64) env server hdr =
        craftDHCPOffer (nprcAdapter 64) { env with behindReq := fun _ => 3 } server hdr' := by
  intro server env hdr hdr'
  have htype : processDHCPHdrInside hdr 243 (fun _ => 0) = dhcpDiscover := by decide +kernel
  have hsame : ∀ i < 243, bytesAt cutDiscover (0 + i) =
      bytesAt (cutDiscover ++ List.replicate 309 dhcpOptMessageType) (0 + i) := by
    intro i hi
    rw [← length_cutDiscover] at hi
    rw [Nat.zero_add, bytesAt, bytesAt, List.getD_append _ _ _ _ hi]
  exact ⟨htype, ((trailing_bytes_ignored (.nprc 64) env server _ _ (fun _ => 0) (fun _ => 3) 0 243
    (by decide) hsame).2.1 htype).2.2⟩

end BaremetalDhcp
