import CampusNet.Homework9.OptionRoundTrip
import CampusNet.Homework9.DhcpServer

/-!
# What the DHCP server is to its clients

The lease table never changes what the server says: it is the set of the hardware addresses seen,
and every reply is determined by the datagram it answers and the memory behind it.

* `DhcpPacket.toBytes` — the packet as `sendto` sends it; `toBytes_received` — as it is received.
* `answer` — the replies to one datagram, whatever came before it.
* `ignoresMemory_iff` — that memory makes no difference exactly when the reads of the two scanners
  that the answer needs stay inside the option array.
* `run_sent`, `run_lease` — what a run has sent and recorded, read off its datagrams.
* `dhcpServer_responder` — the server is a responder with a set of known addresses, and a reply that
  comes back to it changes neither.
-/

namespace CampusNet.Dhcp

open Runs Buffer

/-! ## Packets on the wire -/

/-- The structure's bytes, in the order of its fields. -/
def DhcpPacket.toBytes (pkt : DhcpPacket) : List UInt8 :=
  [pkt.op, pkt.htype, pkt.hlen, pkt.hops] ++ (List.ofFn pkt.xid ++ (List.ofFn pkt.secs ++
    (List.ofFn pkt.flags ++ (List.ofFn pkt.ciaddr ++ (List.ofFn pkt.yiaddr ++
    (List.ofFn pkt.siaddr ++ (List.ofFn pkt.giaddr ++ (List.ofFn pkt.chaddr ++
    (List.ofFn pkt.sname ++ (List.ofFn pkt.file ++ (List.ofFn pkt.magicCookie ++
    (List.range OPTIONS_SIZE).map pkt.options)))))))))))

/-- The same fields, the same options in the array. -/
def DhcpPacket.SameWire (p q : DhcpPacket) : Prop :=
  { p with options := q.options } = q ∧ ∀ j < OPTIONS_SIZE, p.options j = q.options j

theorem DhcpPacket.toBytes_length (pkt : DhcpPacket) : pkt.toBytes.length = PACKET_SIZE := by
  simp only [DhcpPacket.toBytes, List.length_append, List.length_ofFn, List.length_map,
    List.length_range, List.length_cons, List.length_nil, OPTIONS_SIZE, PACKET_SIZE]

/-- A field at the front of the memory. -/
theorem carries_ofFn {n : Nat} {mem : Buf} {k : Nat} {f : Bytes n}
    (h : Carries (mem.from k) (List.ofFn f)) : (fun i : Fin n => mem (k + i)) = f := by
  funext i
  refine h i _ ?_
  rw [List.getElem?_ofFn, dif_pos i.isLt]

theorem ofMemory_toBytes {mem : Buf} {pkt : DhcpPacket} (h : Carries mem pkt.toBytes) :
    (DhcpPacket.ofMemory mem).SameWire pkt := by
  unfold DhcpPacket.toBytes at h
  simp only [carries_append, Buf.from_from, List.length_ofFn, List.length_cons, List.length_nil,
    Nat.reduceAdd] at h
  obtain ⟨hhead, hxid, hsecs, hflags, hci, hyi, hsi, hgi, hch, hsname, hfile, hcookie, hopt⟩ := h
  refine ⟨?_, fun j hj => hopt j _ ?_⟩
  · simp only [DhcpPacket.ofMemory, hhead 0 _ rfl, hhead 1 _ rfl, hhead 2 _ rfl, hhead 3 _ rfl,
      carries_ofFn hxid, carries_ofFn hsecs, carries_ofFn hflags, carries_ofFn hci,
      carries_ofFn hyi, carries_ofFn hsi, carries_ofFn hgi, carries_ofFn hch, carries_ofFn hsname,
      carries_ofFn hfile, carries_ofFn hcookie]
  · rw [List.getElem?_map, List.getElem?_range hj]
    rfl

/-- Memories that agree up to the end of the structure hold the same packet. -/
theorem ofMemory_congr {mem mem' : Buf} (h : ∀ j < PACKET_SIZE, mem j = mem' j) :
    (DhcpPacket.ofMemory mem).SameWire (DhcpPacket.ofMemory mem') := by
  have hfield : ∀ {n k : Nat}, k + n ≤ PACKET_SIZE →
      (fun i : Fin n => mem (k + i)) = fun i : Fin n => mem' (k + i) :=
    fun hk => funext fun i => h _ (by omega)
  refine ⟨?_, fun j hj => h _ ?_⟩
  · simp only [DhcpPacket.ofMemory, DhcpPacket.mk.injEq]
    exact ⟨h 0 (by decide), h 1 (by decide), h 2 (by decide), h 3 (by decide), hfield (by decide),
      hfield (by decide), hfield (by decide), hfield (by decide), hfield (by decide),
      hfield (by decide), hfield (by decide), hfield (by decide), hfield (by decide),
      hfield (by decide), hfield (by decide), trivial⟩
  · unfold OPTIONS_SIZE at hj
    unfold PACKET_SIZE
    omega

/-- **A packet sent is the packet received**, whatever lies behind the receiver's structure. -/
theorem toBytes_received (pkt : DhcpPacket) (beyond : Buf) :
    (Datagram.mk pkt.toBytes beyond).packet.SameWire pkt := by
  refine ofMemory_toBytes fun j x hx => ?_
  obtain ⟨hj, -⟩ := List.getElem?_eq_some_iff.mp hx
  rw [pkt.toBytes_length] at hj
  simp only [if_pos hj]
  rw [List.getD_eq_getElem?_getD, hx]
  rfl

/-! ## One datagram -/

/-- The replies to a datagram, with this memory behind it. -/
def answer (d : Datagram) : List DhcpPacket :=
  if d.Handled then
    let type := getDhcpMessageType d.packet
    if type = DHCP_MSG_DISCOVER then
      [buildReply d.packet DHCP_MSG_OFFER DHCP_FIXED_IP DHCP_ROUTER]
    else if type = DHCP_MSG_REQUEST then
      [buildReply d.packet DHCP_MSG_ACK
        (if getRequestedIp d.packet ≠ 0 then getRequestedIp d.packet else DHCP_FIXED_IP)
        DHCP_ROUTER]
    else []
  else []

/-- A datagram that enters the hardware address into the table. -/
def Enters (mac : Mac) (d : Datagram) : Prop := d.Handled ∧ d.packet.mac = mac

/-- The answer is the same whatever lies behind the datagram. -/
def IgnoresMemory (d : Datagram) : Prop := ∀ beyond, answer ⟨d.bytes, beyond⟩ = answer d

/-- The option array of the datagram. -/
def Datagram.options (d : Datagram) : Bytes OPTIONS_SIZE := fun j => d.packet.options j

/-- The scanner for the message type stays inside the array; for a REQUEST, so does the other. -/
def ReadsInside (options : Bytes OPTIONS_SIZE) : Prop :=
  ∃ type, messageTypeChecked options = some type ∧
    (type = DHCP_MSG_REQUEST → ∃ ip, requestedIpChecked options = some ip)

theorem receive_sent {s : Server} (h : LeasesKeyed s) (d : Datagram) :
    (receive s d).sent = s.sent ++ answer d := by
  unfold receive answer
  split
  · rw [handlePacket_eq h]
  · rw [List.append_nil]

theorem receive_lease {s : Server} (h : LeasesKeyed s) (d : Datagram) (key : Text) :
    (receive s d).lease key =
      if d.Handled ∧ key = macKey d.packet.mac then some ⟨DHCP_FIXED_IP, d.packet.mac⟩
      else s.lease key := by
  unfold receive
  by_cases hd : d.Handled
  · rw [if_pos hd, handlePacket_lease h]
    simp only [hd, true_and]
  · rw [if_neg hd, if_neg fun hand => hd hand.1]

/-- The type of a reply, read from the bytes received. -/
theorem messageType_reply {p req : DhcpPacket} {type : UInt8} {yiaddr serverIp : Bytes 4}
    (h : p.SameWire (buildReply req type yiaddr serverIp)) : getDhcpMessageType p = type := by
  have h0 : p.options 0 = DHCP_OPT_MSG_TYPE := h.2 0 (by decide)
  have h1 : p.options 1 = 1 := h.2 1 (by decide)
  have h2 : p.options 2 = type := h.2 2 (by decide)
  have hscan : scanOptions p.options (fun code len => code = DHCP_OPT_MSG_TYPE ∧ len ≥ 1)
      OPTIONS_SIZE 0 = some 0 := by
    show scanOptions p.options _ (311 + 1) 0 = some 0
    rw [scanOptions, if_pos (by decide)]
    simp only [Nat.zero_add, h0, h1]
    rw [if_neg (by decide), if_neg (by decide), if_neg (by decide)]
    exact if_pos (by decide)
  rw [getDhcpMessageType, hscan]
  exact h2

/-- A reply that comes back is handled, answered with nothing, and names its client. -/
theorem answer_reply (req : DhcpPacket) {type : UInt8} (yiaddr : Bytes 4) (beyond : Buf)
    (htype : type = DHCP_MSG_OFFER ∨ type = DHCP_MSG_ACK) :
    answer ⟨(buildReply req type yiaddr DHCP_ROUTER).toBytes, beyond⟩ = [] ∧
      Enters req.mac ⟨(buildReply req type yiaddr DHCP_ROUTER).toBytes, beyond⟩ := by
  have hwire := toBytes_received (buildReply req type yiaddr DHCP_ROUTER) beyond
  have hread := messageType_reply hwire
  have hmac := congrArg DhcpPacket.mac hwire.1
  have hcookie := congrArg DhcpPacket.magicCookie hwire.1
  refine ⟨?_, ⟨?_, hcookie⟩, hmac⟩
  · unfold answer
    split
    · simp only [hread]
      rcases htype with rfl | rfl
      · rfl
      · rfl
    · rfl
  · show PACKET_SIZE ≤ min (buildReply req type yiaddr DHCP_ROUTER).toBytes.length BUF_SIZE
    rw [DhcpPacket.toBytes_length]
    decide

/-! ## The memory behind a datagram -/

section

variable (d : Datagram) (beyond : Buf)

theorem packet_sameWire : (Datagram.mk d.bytes beyond).packet.SameWire d.packet := by
  refine ofMemory_congr fun j hj => ?_
  simp only [if_pos hj]

theorem holds_options : Holds (Datagram.mk d.bytes beyond).packet.options d.options :=
  fun j => (packet_sameWire d beyond).2 j j.isLt

theorem handled_iff : (Datagram.mk d.bytes beyond).Handled ↔ d.Handled := by
  have hcookie := congrArg DhcpPacket.magicCookie (packet_sameWire d beyond).1
  exact and_congr_right' (Eq.congr_left hcookie)

/-- Only the options of a request can lie outside the datagram, and the reply does not repeat
them. -/
theorem buildReply_bytes (type : UInt8) (yiaddr serverIp : Bytes 4) :
    buildReply (Datagram.mk d.bytes beyond).packet type yiaddr serverIp =
      buildReply d.packet type yiaddr serverIp := by
  rw [← (packet_sameWire d beyond).1]
  rfl

/-- What a read outside the array returns. -/
theorem options_outside (c : UInt8) {j : Nat} (hj : ¬j < OPTIONS_SIZE) :
    (Datagram.mk d.bytes fun _ => c).packet.options j = c := by
  have hout : ¬240 + j < PACKET_SIZE := by
    unfold OPTIONS_SIZE at hj
    unfold PACKET_SIZE
    omega
  exact if_neg hout

variable {d}

/-- A checked run fails only behind an option that it has found. -/
theorem scan_of_checked_none {wanted : UInt8 → UInt8 → Bool} {β : Type} {f : Option Nat → Option β}
    {v : β} (hnone : f none = some v)
    (h : (scanChecked d.options wanted SCAN_ROUNDS 0).bind f = none) :
    ∃ i, scanOptions (Datagram.mk d.bytes beyond).packet.options wanted OPTIONS_SIZE 0 = some i ∧
      f (some i) = none := by
  rw [scanChecked_start (holds_options d beyond), Option.bind_some] at h
  cases hscan : scanOptions (Datagram.mk d.bytes beyond).packet.options wanted OPTIONS_SIZE 0 with
  | none =>
    rw [hscan, hnone] at h
    cases h
  | some i =>
    rw [hscan] at h
    exact ⟨i, rfl, h⟩

theorem messageType_outside (h : messageTypeChecked d.options = none) (c : UInt8) :
    getDhcpMessageType (Datagram.mk d.bytes fun _ => c).packet = c := by
  obtain ⟨i, hscan, hread⟩ := scan_of_checked_none (fun _ => c) (f := typeAt d.options) rfl h
  rw [getDhcpMessageType_eq, hscan]
  refine options_outside d c fun hin => ?_
  obtain ⟨v, hv⟩ := readOption_isSome_iff.mpr hin
  exact absurd (hv.symm.trans hread) nofun

/-- The last byte of the address. -/
theorem requestedIp_outside (h : requestedIpChecked d.options = none) (c : UInt8) :
    getRequestedIp (Datagram.mk d.bytes fun _ => c).packet 3 = c := by
  obtain ⟨i, hscan, hread⟩ := scan_of_checked_none (fun _ => c) (f := ipAt d.options) rfl h
  rw [getRequestedIp_eq, hscan]
  refine options_outside d c fun hin => ?_
  obtain ⟨v, hv⟩ := readIp_isSome_iff.mpr hin
  exact absurd (hv.symm.trans hread) nofun

theorem answer_of_readsInside (h : ReadsInside d.options) : IgnoresMemory d := by
  intro beyond
  obtain ⟨type, htype, hip⟩ := h
  have hread : ∀ b, getDhcpMessageType (Datagram.mk d.bytes b).packet = type := fun b =>
    messageType_agrees (holds_options d b) htype
  unfold answer
  simp only [handled_iff, buildReply_bytes, hread]
  split
  · split
    · rfl
    · split
      · rename_i hrequest
        obtain ⟨ip, hip⟩ := hip hrequest
        have hsame : ∀ b, getRequestedIp (Datagram.mk d.bytes b).packet = ip := fun b =>
          requestedIp_agrees (holds_options d b) hip
        rw [hsame, hsame d.beyond]
      · rfl
  · rfl

/-- A REQUEST whose address ends behind the array is acknowledged the address read there. -/
theorem answer_outside (hhandled : d.Handled)
    (htype : messageTypeChecked d.options = some DHCP_MSG_REQUEST)
    (hip : requestedIpChecked d.options = none) {c : UInt8} (hc : c ≠ 0) :
    answer ⟨d.bytes, fun _ => c⟩ =
      [buildReply d.packet DHCP_MSG_ACK (getRequestedIp (Datagram.mk d.bytes fun _ => c).packet)
        DHCP_ROUTER] := by
  have hread : getDhcpMessageType (Datagram.mk d.bytes fun _ => c).packet = DHCP_MSG_REQUEST :=
    messageType_agrees (holds_options d _) htype
  have hdiffer : DHCP_MSG_REQUEST ≠ DHCP_MSG_DISCOVER := by decide
  have hnonzero : getRequestedIp (Datagram.mk d.bytes fun _ => c).packet ≠ 0 := by
    intro hzero
    apply hc
    rw [← requestedIp_outside hip c, hzero]
    rfl
  unfold answer
  simp only [handled_iff, hhandled, if_true, hread, hdiffer, if_false, buildReply_bytes]
  rw [if_pos hnonzero]

/-- The type read behind the array is any byte, and so is the end of the address. -/
theorem readsInside_of_answer (hhandled : d.Handled) (h : IgnoresMemory d) :
    ReadsInside d.options := by
  have hsame : ∀ b b', answer ⟨d.bytes, b⟩ = answer ⟨d.bytes, b'⟩ := fun b b' =>
    (h b).trans (h b').symm
  cases htype : messageTypeChecked d.options with
  | none =>
    have hread := messageType_outside htype
    have hlength := congrArg List.length (hsame (fun _ => DHCP_MSG_DISCOVER) fun _ => 0)
    unfold answer at hlength
    simp only [handled_iff, hhandled, if_true, hread] at hlength
    rw [if_neg (by decide), if_neg (by decide)] at hlength
    cases hlength
  | some type =>
    refine ⟨type, htype, fun hrequest => ?_⟩
    cases hip : requestedIpChecked d.options with
    | some ip => exact ⟨ip, rfl⟩
    | none =>
      subst hrequest
      -- two memories, two addresses
      have hreplies := hsame (fun _ => 1) fun _ => 2
      rw [answer_outside hhandled htype hip (by decide),
        answer_outside hhandled htype hip (by decide)] at hreplies
      have haddress : getRequestedIp (Datagram.mk d.bytes fun _ => 1).packet =
          getRequestedIp (Datagram.mk d.bytes fun _ => 2).packet :=
        congrArg DhcpPacket.yiaddr (List.cons.inj hreplies).1
      have hbyte := congrFun haddress 3
      rw [requestedIp_outside hip, requestedIp_outside hip] at hbyte
      exact absurd hbyte (by decide)

/-- **When the datagram alone decides**: it is dropped, or the reads the answer needs stay inside
the option array. -/
theorem ignoresMemory_iff : IgnoresMemory d ↔ (d.Handled → ReadsInside d.options) := by
  constructor
  · exact fun h hhandled => readsInside_of_answer hhandled h
  · intro h beyond
    by_cases hhandled : d.Handled
    · exact answer_of_readsInside (h hhandled) beyond
    · rw [answer, answer, if_neg ((handled_iff d beyond).not.mpr hhandled), if_neg hhandled]

end

/-! ## Runs -/

variable {h : List (Server × Datagram)} {s : Server}

theorem run_sent (hr : Run dhcpServer h s) :
    s.sent = (h.reverse.map Prod.snd).flatMap answer := by
  induction hr with
  | nil => rfl
  | snoc hr hstep ih =>
    cases hstep
    rw [receive_sent (leases_keyed hr.reachable), ih]
    simp

theorem run_lease (hr : Run dhcpServer h s) (key : Text) (lease : DhcpLease) :
    s.lease key = some lease ↔
      lease.ip = DHCP_FIXED_IP ∧ key = macKey lease.mac ∧ ∃ p ∈ h, Enters lease.mac p.2 := by
  induction hr with
  | nil => exact iff_of_false (fun hl => by cases hl) fun ⟨_, _, p, hp, _⟩ => nomatch hp
  | @snoc h s s' d hr hstep ih =>
    cases hstep
    have hk := leases_keyed hr.reachable
    rw [receive_lease hk]
    constructor
    · intro hl
      split at hl
      · rename_i hnew
        cases hl
        exact ⟨rfl, hnew.2, _, List.mem_cons_self, hnew.1, rfl⟩
      · obtain ⟨hip, hkey, p, hp, henters⟩ := ih.mp hl
        exact ⟨hip, hkey, p, List.mem_cons_of_mem _ hp, henters⟩
    · rintro ⟨hip, hkey, p, hp, henters⟩
      rcases List.mem_cons.mp hp with rfl | hp
      · obtain ⟨hd, hmac⟩ := henters
        rw [if_pos ⟨hd, by rw [hkey, ← hmac]⟩, ← hip, hmac]
      · have hold := ih.mpr ⟨hip, hkey, p, hp, henters⟩
        split
        · rename_i hnew
          have hmac : d.packet.mac = lease.mac := macKey_injective (hnew.2.symm.trans hkey)
          rw [← hip, hmac]
        · exact hold

/-- What is sent answers a datagram of the run. -/
theorem sent_origin (hr : Run dhcpServer h s) {reply : DhcpPacket} (hreply : reply ∈ s.sent) :
    ∃ p ∈ h, ∃ type yiaddr, Enters reply.mac p.2 ∧
      (type = DHCP_MSG_OFFER ∨ type = DHCP_MSG_ACK) ∧
      reply = buildReply p.2.packet type yiaddr DHCP_ROUTER := by
  rw [run_sent hr, List.mem_flatMap] at hreply
  obtain ⟨d, hd, hreply⟩ := hreply
  rw [List.map_reverse, List.mem_reverse, List.mem_map] at hd
  obtain ⟨p, hp, rfl⟩ := hd
  unfold answer at hreply
  split at hreply
  · rename_i hhandled
    simp only at hreply
    split at hreply
    · rw [List.mem_singleton] at hreply
      exact ⟨p, hp, _, _, ⟨hhandled, by rw [hreply]; rfl⟩, Or.inl rfl, hreply⟩
    · split at hreply
      · rw [List.mem_singleton] at hreply
        exact ⟨p, hp, _, _, ⟨hhandled, by rw [hreply]; rfl⟩, Or.inr rfl, hreply⟩
      · cases hreply
  · cases hreply

/-- **The server is a responder with a set of known addresses**: in every run what it has sent is
the concatenation of the answers to the single datagrams.  An answer depends on the datagram and the
memory behind it, and on the datagram alone exactly when it is dropped or the reads the answer needs
stay inside the option array.  The table records exactly the hardware addresses of the handled
datagrams, all with the fixed address.  A reply of the run that comes back to the server, as the
bytes it was sent as, is answered with nothing and leaves every entry of the table as it is. -/
theorem dhcpServer_responder (hr : Run dhcpServer h s) :
    s.sent = (h.reverse.map Prod.snd).flatMap answer ∧
    (∀ d, IgnoresMemory d ↔ (d.Handled → ReadsInside d.options)) ∧
    (∀ key lease, s.lease key = some lease ↔
      lease.ip = DHCP_FIXED_IP ∧ key = macKey lease.mac ∧ ∃ p ∈ h, Enters lease.mac p.2) ∧
    ∀ reply ∈ s.sent, ∀ beyond,
      (receive s ⟨reply.toBytes, beyond⟩).sent = s.sent ∧
      ∀ key, (receive s ⟨reply.toBytes, beyond⟩).lease key = s.lease key := by
  have hk := leases_keyed hr.reachable
  refine ⟨run_sent hr, fun d => ignoresMemory_iff, run_lease hr, fun reply hreply beyond => ?_⟩
  obtain ⟨p, hp, type, yiaddr, henters, htype, rfl⟩ := sent_origin hr hreply
  obtain ⟨hnone, -, hmac⟩ := answer_reply p.2.packet yiaddr beyond htype
  refine ⟨by rw [receive_sent hk, hnone, List.append_nil], fun key => ?_⟩
  rw [receive_lease hk]
  split
  · rename_i hself
    rw [hmac] at hself ⊢
    exact ((run_lease hr key _).mpr ⟨rfl, hself.2, p, hp, henters⟩).symm
  · rfl

/-- Two long options, and a message type that starts in the last two bytes of the array. -/
def typeBehind : Datagram :=
  clientDatagram (1 :: 255 :: List.replicate 255 0 ++ 1 :: 51 :: List.replicate 51 0 ++ [53, 1])

/-- A DISCOVER, its OFFER, and the OFFER received again.  The DISCOVER alone decides its answer, and
the other datagram does not. -/
theorem dhcpServer_responder_offer : ∃ h s, Run dhcpServer h s ∧ s.sent = answer discover ∧
    IgnoresMemory discover ∧ ¬IgnoresMemory typeBehind ∧
    ∀ reply ∈ s.sent, (receive s ⟨reply.toBytes, fun _ => 0⟩).sent = s.sent := by
  have h0 : Run dhcpServer [] dhcpServer.init := .nil
  have h1 := h0.snoc (a := discover) rfl
  obtain ⟨hsent, halone, -, hback⟩ := dhcpServer_responder h1
  have hinside : messageTypeChecked discover.options = some DHCP_MSG_DISCOVER := by decide +kernel
  have hbehind : messageTypeChecked typeBehind.options = none := by decide +kernel
  have hdiscover : IgnoresMemory discover :=
    (halone _).mpr fun _ => ⟨_, hinside, fun hrequest => absurd hrequest (by decide)⟩
  have htype : ¬IgnoresMemory typeBehind := by
    intro hignores
    obtain ⟨type, htype, -⟩ := (halone _).mp hignores (by decide +kernel)
    cases hbehind.symm.trans htype
  exact ⟨_, _, h1, hsent.trans (List.append_nil _), hdiscover, htype,
    fun reply hr => (hback reply hr _).1⟩

end CampusNet.Dhcp
