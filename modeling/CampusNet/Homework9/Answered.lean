import CampusNet.Homework9.DhcpServer
import CampusNet.Homework9.OptionRoundTrip

/-!
# Well-formed messages at the DHCP server

A client's message is the fixed part with the cookie and as many options as it has; the server
takes a datagram only when it is as long as its own structure.

* `Message` — a well-formed DISCOVER or REQUEST of any legal length.
* `messageType_message` — in a message of full size the scanner finds the message's type.
* `answered_iff` — a message is answered exactly when it has the size of the structure; other
  datagrams get no reply.
-/

namespace CampusNet.Dhcp

open Runs Buffer Tlv

/-- The parts of a message: the fixed part up to the cookie, the options before the message type,
the data of the message type, the options after it, and whatever follows the end option. -/
structure MessageParts where
  header : List UInt8
  before : List OptionItem
  msgType : UInt8
  more : List UInt8
  after : List OptionItem
  trailing : List UInt8

def MessageParts.options (m : MessageParts) : List UInt8 :=
  encode m.before ++
    DHCP_OPT_MSG_TYPE :: UInt8.ofNat (m.more.length + 1) :: m.msgType :: m.more ++
    encode m.after ++ DHCP_OPT_END :: m.trailing

def MessageParts.bytes (m : MessageParts) : List UInt8 :=
  m.header ++ (List.ofFn DHCP_MAGIC_COOKIE ++ m.options)

/-- A well-formed DISCOVER or REQUEST. -/
structure Message extends MessageParts where
  header_length : header.length = 236
  first : ∀ x ∈ before, x.Unwanted isMessageType
  known : msgType = DHCP_MSG_DISCOVER ∨ msgType = DHCP_MSG_REQUEST
  more_fits : more.length < 255
  fits : toMessageParts.bytes.length ≤ PACKET_SIZE

/-- The message as received, with what lies behind `req` in memory. -/
def Message.datagram (m : Message) (beyond : Buf) : Datagram := ⟨m.bytes, beyond⟩

/-- The type of the reply to a message. -/
def Message.replyType (m : Message) : UInt8 :=
  if m.msgType = DHCP_MSG_DISCOVER then DHCP_MSG_OFFER else DHCP_MSG_ACK

/-- The reply has the type and repeats what identifies the request. -/
structure IsReply (req : DhcpPacket) (type : UInt8) (reply : DhcpPacket) : Prop where
  type : getDhcpMessageType reply = type
  xid : reply.xid = req.xid
  flags : reply.flags = req.flags
  giaddr : reply.giaddr = req.giaddr
  chaddr : reply.chaddr = req.chaddr

/-- Exactly one reply is sent, and it is the reply to the message. -/
def Answered (s : Server) (m : Message) (beyond : Buf) : Prop :=
  ∃ reply, (receive s (m.datagram beyond)).sent = s.sent ++ [reply] ∧
    IsReply (m.datagram beyond).packet m.replyType reply

/-- The datagram is too short, or has another cookie, or its options are those of no known
request. -/
def NoRequest (d : Datagram) : Prop :=
  d.bytes.length < 240 ∨ d.packet.magicCookie ≠ DHCP_MAGIC_COOKIE ∨
  (getDhcpMessageType d.packet ≠ DHCP_MSG_DISCOVER ∧
    getDhcpMessageType d.packet ≠ DHCP_MSG_REQUEST)

/-! ## Messages -/

theorem Message.length_bytes (m : Message) : m.bytes.length = 240 + m.options.length := by
  unfold MessageParts.bytes
  rw [List.length_append, List.length_append, List.length_ofFn, m.header_length]
  omega

/-- The byte at index `j` of a full-size message. -/
theorem Message.mem_eq (m : Message) (beyond : Buf) {j : Nat} (hj : j < PACKET_SIZE) {x : UInt8}
    (hx : m.bytes[j]? = some x) :
    (if j < PACKET_SIZE then m.bytes.getD j 0 else beyond (j - PACKET_SIZE)) = x := by
  rw [if_pos hj, List.getD_eq_getElem?_getD, hx]
  rfl

theorem Message.cookie (m : Message) (beyond : Buf) :
    (m.datagram beyond).packet.magicCookie = DHCP_MAGIC_COOKIE := by
  funext i
  have hi := i.isLt
  have hin : 236 + (i : Nat) < PACKET_SIZE := by unfold PACKET_SIZE; omega
  refine m.mem_eq beyond hin ?_
  unfold MessageParts.bytes
  rw [List.getElem?_append_right (by rw [m.header_length]; omega), m.header_length,
    Nat.add_sub_cancel_left, List.getElem?_append_left (by simp), List.getElem?_ofFn, dif_pos hi]

theorem Message.carries_options (m : Message) (beyond : Buf) :
    Carries (m.datagram beyond).packet.options m.options := by
  intro j x hx
  have hlength := m.length_bytes
  have hfits := m.fits
  obtain ⟨hj, -⟩ := List.getElem?_eq_some_iff.mp hx
  have hbytes : m.bytes[240 + j]? = some x := by
    have hindex : 240 + j - 236 - 4 = j := by omega
    unfold MessageParts.bytes
    rw [List.getElem?_append_right (by rw [m.header_length]; omega), m.header_length,
      List.getElem?_append_right (by rw [List.length_ofFn]; omega), List.length_ofFn, hindex, hx]
  have hin : 240 + j < PACKET_SIZE := by omega
  exact m.mem_eq beyond hin hbytes

/-- What stands in front of the message type, and the three bytes at its place. -/
theorem Message.type_bytes (m : Message) (beyond : Buf) :
    Carries (m.datagram beyond).packet.options (encode m.before) ∧
    (m.datagram beyond).packet.options (encode m.before).length = DHCP_OPT_MSG_TYPE ∧
    (m.datagram beyond).packet.options ((encode m.before).length + 1) =
      UInt8.ofNat (m.more.length + 1) ∧
    (m.datagram beyond).packet.options ((encode m.before).length + 2) = m.msgType := by
  have hcarries := m.carries_options beyond
  unfold MessageParts.options at hcarries
  rw [List.append_assoc, List.append_assoc, carries_append] at hcarries
  obtain ⟨hbefore, hrest⟩ := hcarries
  exact ⟨hbefore, hrest 0 _ rfl, hrest 1 _ rfl, hrest 2 _ rfl⟩

/-- The message type has its length byte inside the array. -/
theorem Message.type_fits (m : Message) : (encode m.before).length + 1 < OPTIONS_SIZE := by
  have hlength := m.length_bytes
  have hfits := m.fits
  unfold MessageParts.options at hlength
  simp only [List.length_append, List.length_cons] at hlength
  unfold PACKET_SIZE at hfits
  unfold OPTIONS_SIZE
  omega

/-- **The type the scanner finds** is the message's. -/
theorem messageType_message (m : Message) (beyond : Buf) :
    getDhcpMessageType (m.datagram beyond).packet = m.msgType := by
  obtain ⟨hbefore, hcode, hlen, htype⟩ := m.type_bytes beyond
  have hwanted : isMessageType ((m.datagram beyond).packet.options (encode m.before).length)
      ((m.datagram beyond).packet.options ((encode m.before).length + 1)) = true := by
    rw [hcode, hlen, isMessageType_iff]
    refine ⟨rfl, UInt8.le_iff_toNat_le.mpr ?_⟩
    have hsmall : (UInt8.ofNat (m.more.length + 1)).toNat = m.more.length + 1 :=
      UInt8.toNat_ofNat_of_lt (Nat.succ_lt_succ m.more_fits)
    rw [hsmall]
    exact Nat.succ_le_succ (Nat.zero_le _)
  obtain ⟨hpad, hend⟩ := isMessageType_code _ _ hwanted
  have hscan : scanOptions (m.datagram beyond).packet.options isMessageType OPTIONS_SIZE 0 =
      some (encode m.before).length := by
    rw [scanOptions_eq]
    refine scan_found pad_ne_end m.type_fits hpad hend hwanted m.first ?_ (Nat.zero_add _).symm
      (le_refl _)
    rw [Buf.from_zero]
    exact hbefore
  rw [getDhcpMessageType_eq, hscan]
  exact htype

/-! ## The server's answer -/

theorem receive_short {s : Server} {d : Datagram} (h : d.bytes.length < PACKET_SIZE) :
    receive s d = s := by
  unfold receive
  refine if_neg fun hhandled => ?_
  have hlength := le_trans hhandled.1 (Nat.min_le_left _ _)
  omega

theorem handlePacket_sent (s : Server) (req : DhcpPacket) :
    (getDhcpMessageType req = DHCP_MSG_DISCOVER → ∃ ip,
      (handlePacket s req).sent = s.sent ++ [buildReply req DHCP_MSG_OFFER ip DHCP_ROUTER]) ∧
    (getDhcpMessageType req = DHCP_MSG_REQUEST → ∃ ip,
      (handlePacket s req).sent = s.sent ++ [buildReply req DHCP_MSG_ACK ip DHCP_ROUTER]) ∧
    (getDhcpMessageType req ≠ DHCP_MSG_DISCOVER → getDhcpMessageType req ≠ DHCP_MSG_REQUEST →
      (handlePacket s req).sent = s.sent) := by
  have hdiffer : DHCP_MSG_REQUEST ≠ DHCP_MSG_DISCOVER := by decide
  unfold handlePacket
  refine ⟨fun hdiscover => ?_, fun hrequest => ?_, fun hdiscover hrequest => ?_⟩
  · simp only [if_pos hdiscover]
    exact ⟨_, rfl⟩
  · simp only [hrequest, if_neg hdiffer, if_pos]
    exact ⟨_, rfl⟩
  · simp only [if_neg hdiscover, if_neg hrequest]

theorem isReply_buildReply (req : DhcpPacket) (type : UInt8) (ip : Bytes 4) :
    IsReply req type (buildReply req type ip DHCP_ROUTER) :=
  ⟨getDhcpMessageType_buildReply req type ip DHCP_ROUTER, rfl, rfl, rfl, rfl⟩

theorem message_answered (s : Server) (m : Message) (beyond : Buf)
    (hfull : m.bytes.length = PACKET_SIZE) : Answered s m beyond := by
  have hhandled : (m.datagram beyond).Handled := by
    refine ⟨?_, m.cookie beyond⟩
    show PACKET_SIZE ≤ min m.bytes.length BUF_SIZE
    rw [hfull]
    decide
  have htype := messageType_message m beyond
  obtain ⟨hdiscover, hrequest, -⟩ := handlePacket_sent s (m.datagram beyond).packet
  unfold Answered Message.replyType
  rw [receive, if_pos hhandled]
  rcases m.known with hknown | hknown
  · obtain ⟨ip, hsent⟩ := hdiscover (htype.trans hknown)
    rw [hknown, if_pos rfl]
    exact ⟨_, hsent, isReply_buildReply _ _ ip⟩
  · obtain ⟨ip, hsent⟩ := hrequest (htype.trans hknown)
    rw [hknown, if_neg (by decide)]
    exact ⟨_, hsent, isReply_buildReply _ _ ip⟩

theorem noRequest_silent (s : Server) {d : Datagram} (h : NoRequest d) :
    (receive s d).sent = s.sent := by
  by_cases hhandled : d.Handled
  · rw [receive, if_pos hhandled]
    rcases h with hshort | hcookie | ⟨hdiscover, hrequest⟩
    · have hlength := le_trans hhandled.1 (Nat.min_le_left _ _)
      unfold PACKET_SIZE at hlength
      omega
    · exact absurd hhandled.2 hcookie
    · exact (handlePacket_sent s d.packet).2.2 hdiscover hrequest
  · rw [receive, if_neg hhandled]

/-- **Well-formed messages**: in any state a DISCOVER or REQUEST of any legal length is answered,
with its one reply, exactly when it is as long as the structure; and a datagram that is no request
gets no reply. -/
theorem answered_iff (s : Server) :
    (∀ (m : Message) (beyond : Buf), Answered s m beyond ↔ m.bytes.length = PACKET_SIZE) ∧
    ∀ d : Datagram, NoRequest d → (receive s d).sent = s.sent := by
  refine ⟨fun m beyond => ⟨?_, message_answered s m beyond⟩, fun d h => noRequest_silent s h⟩
  rintro ⟨reply, hsent, -⟩
  by_contra hlength
  rw [receive_short (Nat.lt_of_le_of_ne m.fits hlength)] at hsent
  have hcount := congrArg List.length hsent
  rw [List.length_append, List.length_singleton] at hcount
  omega

/-- A DISCOVER with the message type as its only option, followed by `trailing`. -/
def onlyDiscover (trailing : List UInt8) : MessageParts :=
  ⟨clientHeader.take 236, [], DHCP_MSG_DISCOVER, [], [], trailing⟩

/-- The DISCOVER padded to the size of the structure. -/
def fullDiscover : Message where
  toMessageParts := onlyDiscover (List.replicate 308 0)
  header_length := by decide +kernel
  first := nofun
  known := Or.inl rfl
  more_fits := by decide
  fits := by decide +kernel

/-- The DISCOVER that ends with its end option, in 244 bytes. -/
def shortDiscover : Message where
  toMessageParts := onlyDiscover []
  header_length := by decide +kernel
  first := nofun
  known := Or.inl rfl
  more_fits := by decide
  fits := by decide +kernel

theorem answered_iff_fullDiscover :
    Answered ⟨∅, []⟩ fullDiscover (fun _ => 0) ∧
    (receive ⟨∅, []⟩ ⟨[1, 2, 3], fun _ => 0⟩).sent = [] :=
  ⟨((answered_iff _).1 _ _).mpr (by decide +kernel), (answered_iff _).2 _ (Or.inl (by decide))⟩

/-- A server that has just started does not answer a DISCOVER of 244 bytes. -/
theorem shortDiscover_unanswered : Reachable dhcpServer ⟨∅, []⟩ ∧ shortDiscover.bytes.length = 244 ∧
    ¬Answered ⟨∅, []⟩ shortDiscover (fun _ => 0) := by
  have hlength : shortDiscover.bytes.length = 244 := by decide +kernel
  refine ⟨.init, hlength, ?_⟩
  rintro ⟨reply, hsent, -⟩
  have hshort : (shortDiscover.datagram fun _ => 0).bytes.length < PACKET_SIZE := by
    show shortDiscover.bytes.length < PACKET_SIZE
    rw [hlength]
    decide
  rw [receive_short hshort] at hsent
  cases hsent

end CampusNet.Dhcp
