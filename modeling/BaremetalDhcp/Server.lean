import BaremetalDhcp.Options
import BaremetalDhcp.Lib.Machine

/-!
# Processing a message

The five functions `dhcp_process_message_array`, `_bmvar`, `_bmuni`, `_nprc` and
`_hashmap` of `dhcp_server.c` have one shape: read the message type; on DISCOVER
ask the pool for an address and offer it; on REQUEST with a well-formed option 50
ask the pool to commit the address and acknowledge or refuse; on DECLINE release
what the client holds.  `processMessage` is that shape with the three pool calls
as parameters (`PoolCalls`), and each backend supplies its own.

A response buffer that the source leaves untouched is `none`.

`isOffer_processMessage_iff`, `isAck_processMessage_iff` and
`isNak_processMessage_iff` say what the answer to a message means in terms of the
pool calls; together with the equations for the four kinds of message they are
all that the backends' theorems use of this module.
-/

namespace BaremetalDhcp

/-- The first six bytes of `chaddr`, under which a client is known. -/
abbrev Mac := Bytes 6

/-- A message handed to the server: the request, the memory behind it, and the
current time. -/
structure Arrival where
  request : DhcpMessage
  behind : ℕ → UInt8
  curTime : UInt32

namespace Arrival

def msgType (a : Arrival) : UInt8 := dhcpGetMessageType a.request a.behind

def mac (a : Arrival) : Mac := fun i => a.request.chaddr (i.castLE (by decide))

def requestedIp (a : Arrival) : Option UInt32 :=
  optionWord a.request a.behind dhcpOptRequestedIp

end Arrival

/-- The address lies in the configured pool. -/
def InPool (poolStart poolEnd ip : UInt32) : Prop := poolStart ≤ ip ∧ ip ≤ poolEnd

instance (poolStart poolEnd ip : UInt32) : Decidable (InPool poolStart poolEnd ip) :=
  inferInstanceAs (Decidable (poolStart ≤ ip ∧ ip ≤ poolEnd))

/-- The pool calls of a backend: what DISCOVER, REQUEST and DECLINE do to the
server.  `discover` returns the address to offer, 0 for none; `request` whether
the address was committed. -/
structure PoolCalls (P : Type) where
  discover : DhcpServer P → Arrival → DhcpServer P × UInt32
  request : DhcpServer P → UInt32 → Arrival → DhcpServer P × Bool
  decline : DhcpServer P → Arrival → DhcpServer P

/-- `dhcp_process_message_*`: the next server state and the response, if any. -/
def processMessage {P : Type} (calls : PoolCalls P) (server : DhcpServer P) (a : Arrival) :
    DhcpServer P × Option DhcpMessage :=
  if a.msgType = dhcpDiscover then
    let found := calls.discover server a
    (found.1, if found.2 ≠ 0 then some (dhcpBuildOffer found.1 a.request found.2) else none)
  else if a.msgType = dhcpRequest then
    match a.requestedIp with
    | some ip =>
        let committed := calls.request server ip a
        (committed.1,
          some (if committed.2 then dhcpBuildAck committed.1 a.request ip
            else dhcpBuildNak a.request))
    | none => (server, none)
  else if a.msgType = dhcpDecline then (calls.decline server a, none)
  else (server, none)

/-! ## What a response is -/

/-- The response is a reply of the given type for the given address. -/
def IsReply (type : UInt8) (ip : UInt32) (response : Option DhcpMessage) : Prop :=
  ∃ msg, response = some msg ∧ dhcpGetMessageType msg (fun _ => 0) = type ∧ msg.yiaddr = ip

theorem isReply_some {type : UInt8} {ip : UInt32} {msg : DhcpMessage} :
    IsReply type ip (some msg) ↔
      dhcpGetMessageType msg (fun _ => 0) = type ∧ msg.yiaddr = ip := by
  constructor
  · rintro ⟨msg', hmsg, hreply⟩
    obtain rfl := Option.some.inj hmsg
    exact hreply
  · exact fun hreply => ⟨msg, rfl, hreply⟩

/-- An OFFER of the address. -/
abbrev IsOffer (ip : UInt32) (response : Option DhcpMessage) : Prop :=
  IsReply dhcpOffer ip response

/-- An ACK for the address. -/
abbrev IsAck (ip : UInt32) (response : Option DhcpMessage) : Prop :=
  IsReply dhcpAck ip response

/-- A NAK; it carries no address. -/
abbrev IsNak (response : Option DhcpMessage) : Prop := IsReply dhcpNak 0 response

/-- The type of a message whose area starts with the type option. -/
theorem dhcpGetMessageType_optionArea {msg : DhcpMessage} {type : UInt8}
    {os : List OptionRecord} (h : msg.options = optionArea (typeOption type :: os))
    (behind : ℕ → UInt8) : dhcpGetMessageType msg behind = type := by
  have hbyte : ∀ {i : ℕ}, i < 308 → msg.optByte behind i =
      ((typeOption type).encode ++ (encodeAll os ++ [dhcpOptEnd])).getD i 0 := by
    intro i hi
    rw [optByte_optionArea h behind hi, encodeAll_cons, List.append_assoc]
  have hold : Holds (msg.optByte behind) 0 (typeOption type).encode := by
    intro i hi
    have hlen : (typeOption type).encode.length = 3 := by simp [typeOption]
    rw [Nat.zero_add, hbyte (by omega), List.getD_append _ _ _ _ hi]
  have hget : dhcpGetOption msg behind dhcpOptMessageType = some (2, 1) := by
    rw [dhcpGetOption, getOptionLoop_record hold (by decide)]
    rfl
  rw [dhcpGetMessageType, hget]
  exact hbyte (i := 2) (by decide)

/-- A word option is read back by a client as the server reads option 50. -/
theorem optionWord_of_readOption {msg : DhcpMessage} {behind : ℕ → UInt8} {option : UInt8}
    {value : UInt32} (h : readOption msg behind option = some (uint32ToIp value)) :
    optionWord msg behind option = some value := by
  obtain ⟨ptr, hget, hdata⟩ := dhcpGetOption_of_readOption h
  have hbytes : dataAt (msg.optByte behind) (ptr, 4) =
      [msg.optByte behind ptr, msg.optByte behind (ptr + 1), msg.optByte behind (ptr + 2),
        msg.optByte behind (ptr + 3)] := rfl
  rw [show UInt8.ofNat (uint32ToIp value).length = 4 from rfl] at hget hdata
  rw [hbytes] at hdata
  rw [optionWord, hget]
  simp only [if_true]
  rw [← ipToUint32_uint32ToIp value, ← hdata]
  rfl

/-- The type of a message is the data of its option 53. -/
theorem dhcpGetMessageType_of_readOption {msg : DhcpMessage} {behind : ℕ → UInt8}
    {type : UInt8} (h : readOption msg behind dhcpOptMessageType = some [type]) :
    dhcpGetMessageType msg behind = type := by
  obtain ⟨ptr, hget, hdata⟩ := dhcpGetOption_of_readOption h
  rw [dhcpGetMessageType, hget]
  exact List.head_eq_of_cons_eq hdata

section Reply

variable {P : Type} {server : DhcpServer P} {request : DhcpMessage} {type : UInt8}
  {ip ip' : UInt32}

@[simp] theorem not_isReply_none : ¬ IsReply type ip none := by
  rintro ⟨msg, hmsg, -⟩
  simp at hmsg

@[simp] theorem isReply_dhcpBuildOffer :
    IsReply type ip (some (dhcpBuildOffer server request ip')) ↔
      dhcpOffer = type ∧ ip' = ip := by
  obtain ⟨hoptions, hyiaddr, -⟩ := dhcpBuildOffer_spec server request ip'
  rw [isReply_some, dhcpGetMessageType_optionArea hoptions, hyiaddr]

@[simp] theorem isReply_dhcpBuildAck :
    IsReply type ip (some (dhcpBuildAck server request ip')) ↔
      dhcpAck = type ∧ ip' = ip := by
  obtain ⟨hoptions, hyiaddr, -⟩ := dhcpBuildAck_spec server request ip'
  rw [isReply_some, dhcpGetMessageType_optionArea hoptions, hyiaddr]

@[simp] theorem isReply_dhcpBuildNak :
    IsReply type ip (some (dhcpBuildNak request)) ↔ dhcpNak = type ∧ 0 = ip := by
  rw [isReply_some, dhcpGetMessageType_optionArea (dhcpBuildNak_options request)]
  rfl

end Reply

section Process

variable {P : Type} {calls : PoolCalls P} {server : DhcpServer P} {a : Arrival}

/-! ## What a step does -/

theorem processMessage_discover (h : a.msgType = dhcpDiscover) :
    processMessage calls server a =
      ((calls.discover server a).1,
        if (calls.discover server a).2 ≠ 0 then
          some (dhcpBuildOffer (calls.discover server a).1 a.request
            (calls.discover server a).2)
        else none) := by
  rw [processMessage, if_pos h]

theorem processMessage_request (h : a.msgType = dhcpRequest) {ip : UInt32}
    (hip : a.requestedIp = some ip) :
    processMessage calls server a =
      ((calls.request server ip a).1,
        some (if (calls.request server ip a).2 then
            dhcpBuildAck (calls.request server ip a).1 a.request ip
          else dhcpBuildNak a.request)) := by
  have hne : a.msgType ≠ dhcpDiscover := by rw [h]; decide
  rw [processMessage, if_neg hne, if_pos h, hip]

theorem processMessage_decline (h : a.msgType = dhcpDecline) :
    processMessage calls server a = (calls.decline server a, none) := by
  have hne : a.msgType ≠ dhcpDiscover := by rw [h]; decide
  have hne' : a.msgType ≠ dhcpRequest := by rw [h]; decide
  rw [processMessage, if_neg hne, if_neg hne', if_pos h]

/-- The message asks nothing of the server: another type, or a REQUEST without a
well-formed option 50. -/
def Arrival.Ignored (a : Arrival) : Prop :=
  a.msgType ≠ dhcpDiscover ∧ a.msgType ≠ dhcpDecline ∧
    (a.msgType = dhcpRequest → a.requestedIp = none)

theorem processMessage_ignored (h : a.Ignored) :
    processMessage calls server a = (server, none) := by
  obtain ⟨hd, hc, hr⟩ := h
  rw [processMessage, if_neg hd]
  split_ifs with htype
  · rw [hr htype]
  · rfl

/-- **The four kinds of message.**  A DISCOVER, a REQUEST for some address, a
DECLINE, or a message that is ignored. -/
theorem Arrival.cases (a : Arrival) :
    a.msgType = dhcpDiscover ∨
      (a.msgType = dhcpRequest ∧ ∃ ip, a.requestedIp = some ip) ∨
      a.msgType = dhcpDecline ∨ a.Ignored := by
  by_cases hd : a.msgType = dhcpDiscover
  · exact Or.inl hd
  by_cases hc : a.msgType = dhcpDecline
  · exact Or.inr (Or.inr (Or.inl hc))
  cases hip : a.requestedIp with
  | none => exact Or.inr (Or.inr (Or.inr ⟨hd, hc, fun _ => hip⟩))
  | some ip =>
      by_cases hr : a.msgType = dhcpRequest
      · exact Or.inr (Or.inl ⟨hr, ip, rfl⟩)
      · exact Or.inr (Or.inr (Or.inr ⟨hd, hc, fun h => absurd h hr⟩))

/-! ## What the answer says -/

/-- **An OFFER of `ip`** answers exactly a DISCOVER for which the pool found `ip`. -/
theorem isOffer_processMessage_iff {ip : UInt32} :
    IsOffer ip (processMessage calls server a).2 ↔
      a.msgType = dhcpDiscover ∧ (calls.discover server a).2 = ip ∧ ip ≠ 0 := by
  obtain hd | ⟨hr, ip', hip⟩ | hc | hi := a.cases
  · rw [processMessage_discover hd]
    by_cases hfound : (calls.discover server a).2 ≠ 0
    · rw [if_pos hfound]
      refine isReply_dhcpBuildOffer.trans ?_
      exact ⟨fun h => ⟨hd, h.2, h.2 ▸ hfound⟩, fun h => ⟨rfl, h.2.1⟩⟩
    · rw [if_neg hfound]
      exact iff_of_false not_isReply_none fun h => hfound (h.2.1.symm ▸ h.2.2)
  · rw [processMessage_request hr hip, hr]
    refine iff_of_false ?_ (by simp [dhcpRequest, dhcpDiscover])
    show ¬ IsReply _ _ (some (ite _ _ _))
    split_ifs <;> simp [dhcpAck, dhcpNak, dhcpOffer]
  · rw [processMessage_decline hc, hc]
    simp [dhcpDecline, dhcpDiscover]
  · rw [processMessage_ignored hi]
    exact iff_of_false not_isReply_none fun h => hi.1 h.1

/-- **An ACK for `ip`** answers exactly a REQUEST for `ip` that the pool
committed. -/
theorem isAck_processMessage_iff {ip : UInt32} :
    IsAck ip (processMessage calls server a).2 ↔
      a.msgType = dhcpRequest ∧ a.requestedIp = some ip ∧
        (calls.request server ip a).2 = true := by
  obtain hd | ⟨hr, ip', hip⟩ | hc | hi := a.cases
  · rw [processMessage_discover hd, hd]
    refine iff_of_false ?_ (by simp [dhcpRequest, dhcpDiscover])
    show ¬ IsReply _ _ (ite _ _ _)
    split_ifs <;> simp [dhcpAck, dhcpOffer]
  · rw [processMessage_request hr hip, hip, Option.some.injEq]
    cases hok : (calls.request server ip' a).2 with
    | true =>
        show IsReply _ _ (some (ite _ _ _)) ↔ _
        rw [if_pos rfl, isReply_dhcpBuildAck]
        exact ⟨fun h => ⟨hr, h.2, h.2 ▸ hok⟩, fun h => ⟨rfl, h.2.1⟩⟩
    | false =>
        refine iff_of_false (by simp [dhcpNak, dhcpAck]) ?_
        rintro ⟨-, rfl, hcommit⟩
        exact absurd (hok.symm.trans hcommit) (by decide)
  · rw [processMessage_decline hc, hc]
    simp [dhcpDecline, dhcpRequest]
  · rw [processMessage_ignored hi]
    refine iff_of_false not_isReply_none ?_
    rintro ⟨htype, hsome, -⟩
    exact absurd ((hi.2.2 htype).symm.trans hsome) (by simp)

/-- **A NAK** answers exactly a REQUEST for an address that the pool refused. -/
theorem isNak_processMessage_iff :
    IsNak (processMessage calls server a).2 ↔
      ∃ ip, a.msgType = dhcpRequest ∧ a.requestedIp = some ip ∧
        (calls.request server ip a).2 = false := by
  obtain hd | ⟨hr, ip', hip⟩ | hc | hi := a.cases
  · rw [processMessage_discover hd, hd]
    refine iff_of_false ?_ (by simp [dhcpRequest, dhcpDiscover])
    show ¬ IsReply _ _ (ite _ _ _)
    split_ifs <;> simp [dhcpNak, dhcpOffer]
  · rw [processMessage_request hr hip]
    cases hok : (calls.request server ip' a).2 with
    | true =>
        refine iff_of_false (by simp [dhcpNak, dhcpAck]) ?_
        rintro ⟨ip, -, hsome, hrefused⟩
        obtain rfl : ip' = ip := Option.some.inj (hip.symm.trans hsome)
        exact absurd (hok.symm.trans hrefused) (by decide)
    | false => exact iff_of_true (by simp) ⟨ip', hr, hip, hok⟩
  · rw [processMessage_decline hc, hc]
    simp [dhcpDecline, dhcpRequest]
  · rw [processMessage_ignored hi]
    refine iff_of_false not_isReply_none ?_
    rintro ⟨ip, htype, hsome, -⟩
    exact absurd ((hi.2.2 htype).symm.trans hsome) (by simp)

/-- A REQUEST for `ip` is answered with a NAK exactly if the pool refused it. -/
theorem isNak_processMessage_request_iff {ip : UInt32} (hr : a.msgType = dhcpRequest)
    (hip : a.requestedIp = some ip) :
    IsNak (processMessage calls server a).2 ↔ (calls.request server ip a).2 = false := by
  rw [isNak_processMessage_iff]
  constructor
  · rintro ⟨ip', -, hip', hrefused⟩
    obtain rfl : ip = ip' := Option.some.inj (hip.symm.trans hip')
    exact hrefused
  · intro hrefused
    exact ⟨ip, hr, hip, hrefused⟩

/-- What all responses to a request have in common. -/
structure Answers (request response : DhcpMessage) : Prop where
  op_eq : response.op = 2
  xid_eq : response.xid = request.xid
  options_eq : ∃ type os, response.options = optionArea (typeOption type :: os) ∧
    (type = dhcpOffer ∨ type = dhcpAck ∨ type = dhcpNak) ∧
    (os = [] ∨ ∃ config, os = configOptions config)

theorem answers_dhcpBuildOffer (request : DhcpMessage) (ip : UInt32) :
    Answers request (dhcpBuildOffer server request ip) := by
  rw [dhcpBuildOffer, addConfigOptions_eq rfl]
  exact ⟨rfl, rfl, _, _, rfl, Or.inl rfl, Or.inr ⟨_, rfl⟩⟩

theorem answers_dhcpBuildAck (request : DhcpMessage) (ip : UInt32) :
    Answers request (dhcpBuildAck server request ip) := by
  rw [dhcpBuildAck, addConfigOptions_eq rfl]
  exact ⟨rfl, rfl, _, _, rfl, Or.inr (Or.inl rfl), Or.inr ⟨_, rfl⟩⟩

theorem answers_dhcpBuildNak (request : DhcpMessage) : Answers request (dhcpBuildNak request) :=
  ⟨rfl, rfl, _, _, dhcpBuildNak_options request, Or.inr (Or.inr rfl), Or.inl rfl⟩

/-- **Every response is one of the three replies.** -/
theorem answers_of_processMessage {response : DhcpMessage}
    (h : (processMessage calls server a).2 = some response) : Answers a.request response := by
  obtain hd | ⟨hr, ip, hip⟩ | hc | hi := a.cases
  · rw [processMessage_discover hd] at h
    dsimp only at h
    split_ifs at h
    obtain rfl := Option.some.inj h
    exact answers_dhcpBuildOffer _ _
  · rw [processMessage_request hr hip] at h
    obtain rfl := Option.some.inj h
    split_ifs
    · exact answers_dhcpBuildAck _ _
    · exact answers_dhcpBuildNak _
  · rw [processMessage_decline hc] at h
    simp at h
  · rw [processMessage_ignored hi] at h
    simp at h

/-- The lease time a reply advertises, as a client reads option 51. -/
def replyLeaseTime (response : Option DhcpMessage) : Option UInt32 :=
  response.bind fun msg => optionWord msg (fun _ => 0) dhcpOptLeaseTime

/-- An OFFER advertises the lease time configured after the pool was searched. -/
theorem replyLeaseTime_of_isOffer {ip : UInt32}
    (h : IsOffer ip (processMessage calls server a).2) :
    replyLeaseTime (processMessage calls server a).2 =
      some (calls.discover server a).1.config.leaseTime := by
  obtain ⟨hd, hfound, hne⟩ := isOffer_processMessage_iff.mp h
  have hresponse : (processMessage calls server a).2 =
      some (dhcpBuildOffer (calls.discover server a).1 a.request ip) := by
    rw [processMessage_discover hd, hfound, if_pos hne]
  rw [hresponse, replyLeaseTime, Option.bind_some]
  refine optionWord_of_readOption ?_
  rw [readOption_optionArea (dhcpBuildOffer_spec _ _ _).1 _
    (by simp [configOptions, typeOption, wordOption])]
  rfl

/-- An ACK advertises the lease time configured after the commit. -/
theorem replyLeaseTime_of_isAck {ip : UInt32}
    (h : IsAck ip (processMessage calls server a).2) :
    replyLeaseTime (processMessage calls server a).2 =
      some (calls.request server ip a).1.config.leaseTime := by
  obtain ⟨hr, hip, hok⟩ := isAck_processMessage_iff.mp h
  have hresponse : (processMessage calls server a).2 =
      some (dhcpBuildAck (calls.request server ip a).1 a.request ip) := by
    rw [processMessage_request hr hip, hok, if_pos rfl]
  rw [hresponse, replyLeaseTime, Option.bind_some]
  refine optionWord_of_readOption ?_
  rw [readOption_optionArea (dhcpBuildAck_spec _ _ _).1 _
    (by simp [configOptions, typeOption, wordOption])]
  rfl

end Process

/-- In a run with nondecreasing timestamps, everything between two messages
happens between their times. -/
theorem timestamps_between {before between : List Arrival} {a b : Arrival}
    (h : (before ++ a :: between ++ [b]).Pairwise fun c d => c.curTime ≤ d.curTime) :
    a.curTime.toNat ≤ b.curTime.toNat ∧
      (∀ c ∈ between, a.curTime.toNat ≤ c.curTime.toNat ∧ c.curTime.toNat ≤ b.curTime.toNat) ∧
      between.Pairwise fun c d => c.curTime.toNat ≤ d.curTime.toNat := by
  rw [List.append_assoc, List.pairwise_append] at h
  obtain ⟨-, h, -⟩ := h
  rw [List.cons_append, List.pairwise_cons, List.pairwise_append] at h
  obtain ⟨hfrom, hbetween, -, hto⟩ := h
  refine ⟨UInt32.le_iff_toNat_le.mp (hfrom b (by simp)), fun c hc => ⟨?_, ?_⟩, ?_⟩
  · exact UInt32.le_iff_toNat_le.mp (hfrom c (by simp [hc]))
  · exact UInt32.le_iff_toNat_le.mp (hto c hc b (by simp))
  · exact hbetween.imp fun hle => UInt32.le_iff_toNat_le.mp hle

/-! ## Client messages -/

/-- A network with the given pool and lease time. -/
def poolConfig (poolStart poolEnd leaseTime : UInt32) : DhcpConfig where
  serverIp := 1
  subnetMask := 0xFFFFFF00
  gatewayIp := 1
  dnsIp := 1
  poolStart := poolStart
  poolEnd := poolEnd
  leaseTime := leaseTime

/-- A message of the client with the given last MAC byte. -/
def clientMessage (type mac : UInt8) (options : List OptionRecord) : DhcpMessage :=
  { DhcpMessage.zero with
    op := 1
    htype := 1
    hlen := 6
    chaddr := fun i => if i.val = 5 then mac else 0
    magicCookie := dhcpMagicCookie
    options := optionArea (typeOption type :: options) }

/-- A DISCOVER at a given time. -/
def discoverFrom (mac : UInt8) (curTime : UInt32) : Arrival :=
  ⟨clientMessage dhcpDiscover mac [], fun _ => 0, curTime⟩

/-- A REQUEST for an address at a given time. -/
def requestFrom (mac : UInt8) (ip curTime : UInt32) : Arrival :=
  ⟨clientMessage dhcpRequest mac [wordOption dhcpOptRequestedIp (by decide) (by decide) ip],
    fun _ => 0, curTime⟩

end BaremetalDhcp
