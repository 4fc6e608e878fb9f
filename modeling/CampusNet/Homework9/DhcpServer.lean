import CampusNet.Homework9.DhcpPacket
import CampusNet.Lib.Runs
import Mathlib.Data.List.AList

/-!
# The DHCP server and its lease table

Model of the main loop of `homework9/dhcp_server.cpp`.

* `handlePacket`, `receive` — one round of the loop.
* `dhcpServer` — any sequence of datagrams, with the replies sent so far.
* `LeasesKeyed` — each entry has the text of its own hardware address as key and the fixed
  address; `leases_keyed`, `receive_keeps` — always so, and entries never change.
* `RepliesAgree` — every reply carries the address recorded for its hardware address.
* `RequestsFixed` — the side condition: a handled REQUEST asks for no address or the fixed one.
* `repliesAgree_iff` — the replies of a run agree with the table exactly under that condition.
-/

namespace CampusNet.Dhcp

open Runs Buffer

structure DhcpLease where
  ip : Bytes 4
  mac : Mac
  deriving DecidableEq

/-- `map<string, DhcpLease>`. -/
abbrev LeaseTable := AList (fun _ : Text => DhcpLease)

structure Server where
  leaseTable : LeaseTable
  sent : List DhcpPacket

/-- The entry for a hardware address, if there is one. -/
def Server.lease (s : Server) (key : Text) : Option DhcpLease := s.leaseTable.lookup key

/-- A received datagram, and the memory behind `req` while it is handled. -/
structure Datagram where
  bytes : List UInt8
  beyond : Buf

/-- `lease_table[mac_key]`, assigned if it is new or names another hardware address. -/
def Server.assign (s : Server) (mac : Mac) : DhcpLease :=
  let lease := (s.lease (macKey mac)).getD ⟨0, 0⟩
  if lease.ip = 0 ∨ macEqual lease.mac mac = false then ⟨DHCP_FIXED_IP, mac⟩ else lease

def handlePacket (s : Server) (req : DhcpPacket) : Server :=
  let msgType := getDhcpMessageType req
  let requestedIp := getRequestedIp req
  let lease := s.assign req.mac
  let leaseTable := s.leaseTable.insert (macKey req.mac) lease
  if msgType = DHCP_MSG_DISCOVER then
    ⟨leaseTable, s.sent ++ [buildReply req DHCP_MSG_OFFER lease.ip DHCP_ROUTER]⟩
  else if msgType = DHCP_MSG_REQUEST then
    let chosen := if requestedIp ≠ 0 then requestedIp else lease.ip
    let chosen := if chosen = 0 then lease.ip else chosen
    ⟨leaseTable, s.sent ++ [buildReply req DHCP_MSG_ACK chosen DHCP_ROUTER]⟩
  else ⟨leaseTable, s.sent⟩

/-- `sizeof(buf)`. -/
def BUF_SIZE : Nat := 1500

def Datagram.packet (d : Datagram) : DhcpPacket :=
  .ofMemory fun j => if j < PACKET_SIZE then d.bytes.getD j 0 else d.beyond (j - PACKET_SIZE)

/-- Long enough, and with the magic cookie. -/
def Datagram.Handled (d : Datagram) : Prop :=
  PACKET_SIZE ≤ min d.bytes.length BUF_SIZE ∧ d.packet.magicCookie = DHCP_MAGIC_COOKIE

instance (d : Datagram) : Decidable d.Handled := inferInstanceAs (Decidable (_ ∧ _))

def receive (s : Server) (d : Datagram) : Server :=
  if d.Handled then handlePacket s d.packet else s

/-- The server loop. -/
def dhcpServer : Machine Server Datagram := ⟨⟨∅, []⟩, fun s d => some (receive s d)⟩

/-! ## The lease table -/

def LeasesKeyed (s : Server) : Prop :=
  ∀ key lease, s.lease key = some lease → key = macKey lease.mac ∧ lease.ip = DHCP_FIXED_IP

theorem lease_insert (s : Server) (sent : List DhcpPacket) (k key : Text) (lease : DhcpLease) :
    (Server.mk (s.leaseTable.insert k lease) sent).lease key =
      if key = k then some lease else s.lease key := by
  unfold Server.lease
  by_cases h : key = k
  · subst h; simp [AList.lookup_insert]
  · simp [h, AList.lookup_insert_ne h]

/-- **The lease of a hardware address** is the fixed address, whether the entry is new or old. -/
theorem assign_eq {s : Server} (h : LeasesKeyed s) (mac : Mac) :
    s.assign mac = ⟨DHCP_FIXED_IP, mac⟩ := by
  unfold Server.assign
  cases hl : s.lease (macKey mac) with
  | none => exact if_pos (Or.inl rfl)
  | some lease =>
    obtain ⟨hkey, hip⟩ := h _ _ hl
    have hmac : lease.mac = mac := (macKey_injective hkey).symm
    have hne : ¬ (lease.ip = 0 ∨ macEqual lease.mac mac = false) := by
      rw [hip, hmac, macEqual_iff.mpr rfl]
      decide
    simp only [Option.getD_some, if_neg hne]
    rw [← hip, ← hmac]

/-- What one handled packet does: an entry for its hardware address, and at most one reply. -/
theorem handlePacket_eq {s : Server} (h : LeasesKeyed s) (req : DhcpPacket) :
    handlePacket s req =
      ⟨s.leaseTable.insert (macKey req.mac) ⟨DHCP_FIXED_IP, req.mac⟩,
        s.sent ++
          if getDhcpMessageType req = DHCP_MSG_DISCOVER then
            [buildReply req DHCP_MSG_OFFER DHCP_FIXED_IP DHCP_ROUTER]
          else if getDhcpMessageType req = DHCP_MSG_REQUEST then
            [buildReply req DHCP_MSG_ACK
              (if getRequestedIp req ≠ 0 then getRequestedIp req else DHCP_FIXED_IP) DHCP_ROUTER]
          else []⟩ := by
  have hfixed : DHCP_FIXED_IP ≠ 0 := by decide
  have hchosen : (if (if getRequestedIp req ≠ 0 then getRequestedIp req else DHCP_FIXED_IP) = 0
      then DHCP_FIXED_IP else if getRequestedIp req ≠ 0 then getRequestedIp req
        else DHCP_FIXED_IP) =
      if getRequestedIp req ≠ 0 then getRequestedIp req else DHCP_FIXED_IP := by
    apply if_neg
    split
    · assumption
    · exact hfixed
  unfold handlePacket
  simp only [assign_eq h, hchosen]
  split
  · rfl
  · split
    · rfl
    · rw [List.append_nil]

theorem handlePacket_lease {s : Server} (h : LeasesKeyed s) (req : DhcpPacket) (key : Text) :
    (handlePacket s req).lease key =
      if key = macKey req.mac then some ⟨DHCP_FIXED_IP, req.mac⟩ else s.lease key := by
  rw [handlePacket_eq h, lease_insert]

theorem LeasesKeyed.receive {s : Server} (h : LeasesKeyed s) (d : Datagram) :
    LeasesKeyed (Dhcp.receive s d) := by
  unfold Dhcp.receive
  split
  · intro key lease hl
    rw [handlePacket_lease h] at hl
    split at hl
    · rename_i hkey
      cases hl
      exact ⟨hkey, rfl⟩
    · exact h key lease hl
  · exact h

/-- **An entry is never reassigned.** -/
theorem receive_keeps {s : Server} (h : LeasesKeyed s) (d : Datagram) {key : Text}
    {lease : DhcpLease} (hl : s.lease key = some lease) :
    (receive s d).lease key = some lease := by
  unfold receive
  split
  · rw [handlePacket_lease h]
    split
    · rename_i hkey
      obtain ⟨hk, hip⟩ := h key lease hl
      rw [← hip, ← macKey_injective (hk.symm.trans hkey)]
    · exact hl
  · exact hl

theorem leases_keyed {s : Server} (h : Reachable dhcpServer s) : LeasesKeyed s := by
  refine h.induct (fun key lease hl => by cases hl) fun s d s' hs hstep => ?_
  cases hstep
  exact hs.receive d

/-- The states of a run only add entries. -/
theorem run_keeps {h : List (Server × Datagram)} {s : Server} (hr : Run dhcpServer h s) :
    ∀ p ∈ h, ∀ key lease, p.1.lease key = some lease → s.lease key = some lease := by
  induction hr with
  | nil => intro p hp; cases hp
  | snoc hr' hstep ih =>
    cases hstep
    have hk := leases_keyed hr'.reachable
    rw [List.forall_mem_cons]
    exact ⟨fun key lease hl => receive_keeps hk _ hl,
      fun p hp key lease hl => receive_keeps hk _ (ih p hp key lease hl)⟩

/-! ## The replies -/

/-- Every reply carries the address recorded for its hardware address. -/
def RepliesAgree (s : Server) : Prop :=
  ∀ reply ∈ s.sent, ∃ lease, s.lease (macKey reply.mac) = some lease ∧ reply.yiaddr = lease.ip

/-- A handled REQUEST asks for no address or for the fixed one. -/
def RequestsFixed (d : Datagram) : Prop :=
  d.Handled → getDhcpMessageType d.packet = DHCP_MSG_REQUEST →
    getRequestedIp d.packet = 0 ∨ getRequestedIp d.packet = DHCP_FIXED_IP

theorem RepliesAgree.keep {s : Server} (h : RepliesAgree s) (hk : LeasesKeyed s) (d : Datagram) :
    ∀ reply ∈ s.sent, ∃ lease, (receive s d).lease (macKey reply.mac) = some lease ∧
      reply.yiaddr = lease.ip := by
  intro reply hr
  obtain ⟨lease, hl, he⟩ := h reply hr
  exact ⟨lease, receive_keeps hk d hl, he⟩

theorem receive_agrees {s : Server} (hk : LeasesKeyed s) (h : RepliesAgree s) (d : Datagram) :
    RepliesAgree (receive s d) ↔ RequestsFixed d := by
  by_cases hd : d.Handled
  · have hold := h.keep hk d
    have hself : (receive s d).lease (macKey d.packet.mac) =
        some ⟨DHCP_FIXED_IP, d.packet.mac⟩ := by
      rw [receive, if_pos hd, handlePacket_lease hk, if_pos rfl]
    -- a new reply to this client agrees exactly when it carries the fixed address
    have hnew : ∀ type ip, (∃ lease, (receive s d).lease
        (macKey (buildReply d.packet type ip DHCP_ROUTER).mac) = some lease ∧
          (buildReply d.packet type ip DHCP_ROUTER).yiaddr = lease.ip) ↔ ip = DHCP_FIXED_IP := by
      intro type ip
      show (∃ lease, (receive s d).lease (macKey d.packet.mac) = some lease ∧ ip = lease.ip) ↔ _
      rw [hself]
      simp
    have hsent : (receive s d).sent = _ :=
      (congrArg Server.sent (if_pos hd)).trans (congrArg Server.sent (handlePacket_eq hk d.packet))
    unfold RepliesAgree RequestsFixed
    rw [hsent]
    simp only [List.forall_mem_append, hd, forall_true_left]
    rw [and_iff_right hold]
    by_cases hdiscover : getDhcpMessageType d.packet = DHCP_MSG_DISCOVER
    · rw [if_pos hdiscover, List.forall_mem_singleton, hnew, hdiscover]
      exact iff_of_true rfl fun hreq => absurd hreq (by decide)
    · rw [if_neg hdiscover]
      by_cases hrequest : getDhcpMessageType d.packet = DHCP_MSG_REQUEST
      · rw [if_pos hrequest, List.forall_mem_singleton, hnew]
        by_cases hzero : getRequestedIp d.packet = 0
        · simp [hzero]
        · simp [hzero, hrequest]
      · rw [if_neg hrequest]
        exact iff_of_true (by simp) fun hreq => absurd hreq hrequest
  · rw [receive, if_neg hd]
    exact iff_of_true h fun hhandled => absurd hhandled hd

/-- **Replies and lease table.**  In every run the entries are keyed by their own hardware
address, hold the address assigned at first and never change; and the replies carry the recorded
addresses exactly when every handled REQUEST asks for no address or for the fixed one. -/
theorem repliesAgree_iff {h : List (Server × Datagram)} {s : Server} (hr : Run dhcpServer h s) :
    Throughout (fun s => LeasesKeyed s ∧ RepliesAgree s) h s ∧
        (∀ p ∈ h, ∀ key lease, p.1.lease key = some lease → s.lease key = some lease) ↔
      ∀ p ∈ h, RequestsFixed p.2 := by
  rw [and_iff_left (run_keeps hr)]
  have hstep : ∀ s d s', Reachable dhcpServer s → LeasesKeyed s ∧ RepliesAgree s →
      dhcpServer.step s d = some s' → (LeasesKeyed s' ∧ RepliesAgree s' ↔ RequestsFixed d) := by
    intro s d s' _ hP he
    cases he
    rw [← receive_agrees hP.1 hP.2 d]
    exact and_iff_right (hP.1.receive d)
  exact hr.always_iff ⟨leases_keyed .init, fun reply hm => absurd hm List.not_mem_nil⟩ hstep

/-- A client that asks for its address. -/
def clientHeader : List UInt8 :=
  [1, 1, 6, 0] ++ List.replicate 24 0 ++ [2, 0, 0, 0, 0, 1] ++ List.replicate 202 0 ++
    [0x63, 0x82, 0x53, 0x63]

/-- A datagram with these options, padded to the full packet. -/
def clientDatagram (options : List UInt8) : Datagram :=
  ⟨clientHeader ++ options ++ List.replicate (312 - options.length) 0, fun _ => 0⟩

def discover : Datagram := clientDatagram [53, 1, 1, 255]

/-- REQUEST with the requested-IP option 192.168.1.2. -/
def requestOffered : Datagram := clientDatagram [53, 1, 3, 50, 4, 192, 168, 1, 2, 255]

/-- REQUEST with the requested-IP option 10.0.0.9. -/
def requestOther : Datagram := clientDatagram [53, 1, 3, 50, 4, 10, 0, 0, 9, 255]

/-- A client is offered 192.168.1.2 and asks for it: both replies agree with its entry. -/
theorem repliesAgree_iff_request : ∃ h s, Run dhcpServer h s ∧
    h.map Prod.snd = [requestOffered, discover] ∧ s.sent.length = 2 ∧ RepliesAgree s := by
  have h0 : Run dhcpServer [] dhcpServer.init := .nil
  have h1 := h0.snoc (a := discover) rfl
  have h2 := h1.snoc (a := requestOffered) rfl
  have hdiscover : RequestsFixed discover := fun _ htype => absurd htype (by decide +kernel)
  have hrequest : RequestsFixed requestOffered := fun _ _ => Or.inr (by decide +kernel)
  refine ⟨_, _, h2, rfl, by decide +kernel, ((repliesAgree_iff h2).mpr ?_).1.2.2⟩
  simp only [List.forall_mem_cons]
  exact ⟨hrequest, hdiscover, nofun⟩

/-- A client is offered 192.168.1.2, asks for 10.0.0.9 and is acknowledged 10.0.0.9. -/
theorem requestOther_breaks_agreement :
    ∃ s, Reachable dhcpServer s ∧ ¬ RepliesAgree s := by
  obtain ⟨s, hs, hp⟩ := exists_reachable_of_exec (M := dhcpServer)
    [discover, requestOther]
    (p := fun s => decide (∃ reply ∈ s.sent, reply.yiaddr = ![10, 0, 0, 9]))
    (by decide +kernel)
  obtain ⟨reply, hmem, hip⟩ := of_decide_eq_true hp
  refine ⟨s, hs, fun hagree => ?_⟩
  obtain ⟨lease, hl, he⟩ := hagree reply hmem
  rw [hip, ((leases_keyed hs) _ _ hl).2] at he
  apply absurd he
  decide

end CampusNet.Dhcp
