import CampusNet.Homework9.IcmpPing
import CampusNet.Lib.Runs
import Mathlib.Algebra.BigOperators.Group.List.Basic
import Mathlib.Data.List.Perm.Basic

/-!
# Ping: the client, and clients and servers together

Model of `run_client` of `homework9/icmp_ping.cpp`, and of any number of processes of the program
on a network that may hold, lose, reorder and copy datagrams.

* `buildRequest` — the echo request for any id, sequence number and payload; `clientRequest` is the
  one with the program's constants.
* `readReply` — the line the client prints for the datagram it reads.
* `IpHeader` — a header whose length field is right; the kernel puts one before every message.
* `ping_roundTrip` — a request answered by the server is reported with its own id and number.
* `pingNetwork_safe` — what the clients print and how much traffic a request can cause.
-/

namespace CampusNet.Icmp

open OnesComplement Runs

/-! ## The client -/

/-- `htons`; `ntohs` is the same function. -/
def htons (v : UInt16) : UInt16 := (v <<< 8) ||| (v >>> 8)

/-- `packet` up to `packet_len`, the checksum filled in.  The program has the id 1234, the number 1
and ten bytes of payload in a buffer of 64. -/
def buildRequest (id seq : UInt16) (payload : List UInt8) : List UInt8 :=
  let icmp := [ICMP_ECHO, 0, 0, 0] ++ bytesLe (htons id) ++ bytesLe (htons seq) ++ payload
  setChecksum icmp (icmpChecksum icmp)

/-- `"hello icmp"`. -/
def helloIcmp : List UInt8 := [104, 101, 108, 108, 111, 32, 105, 99, 109, 112]

def clientRequest : List UInt8 := buildRequest 1234 1 helloIcmp

/-- What `run_client` prints after it has sent its request. -/
inductive Line where
  | timeout
  | recvfromError
  | badReply
  | echoReply (id seq : UInt16)
  | nonEcho
  deriving DecidableEq, Repr

/-- `ntohs` of the word of the message at offset `k`. -/
def fieldAt (icmp : List UInt8) (k : Nat) : UInt16 :=
  htons (UInt16.ofNat (littleEndian (icmp.getD k 0) (icmp.getD (k + 1) 0)))

def readReply (datagram : List UInt8) : Line :=
  let reply := datagram.take BUF_SIZE
  if reply.length = 0 then .recvfromError
  else if reply.length < ipHeaderLen reply + 8 then .badReply
  else
    let icmp := reply.drop (ipHeaderLen reply)
    if icmp.headD 0 = ICMP_ECHOREPLY then .echoReply (fieldAt icmp 4) (fieldAt icmp 6)
    else .nonEcho

/-- An IP header, its length field right. -/
structure IpHeader where
  bytes : List UInt8
  nonempty : bytes ≠ []
  ihl : ipHeaderLen bytes = bytes.length

/-! ## Byte order -/

theorem toNat_htons (v : UInt16) : (htons v).toNat = swap v.toNat := by
  have hv := v.toNat_lt
  have hhigh : v.toNat / 256 < 2 ^ 8 := by omega
  have hlow : v.toNat * 256 % 65536 = v.toNat % 256 * 256 := by omega
  have hor := Nat.shiftLeft_add_eq_or_of_lt hhigh (v.toNat % 256)
  rw [Nat.shiftLeft_eq] at hor
  unfold htons swap
  rw [UInt16.toNat_or, UInt16.toNat_shiftLeft, UInt16.toNat_shiftRight, Nat.shiftLeft_eq,
    Nat.shiftRight_eq_div_pow]
  show v.toNat * 256 % 65536 ||| v.toNat / 256 = _
  rw [hlow]
  exact hor.symm

theorem htons_htons (v : UInt16) : htons (htons v) = v := by
  have hv := v.toNat_lt
  apply UInt16.toNat_inj.mp
  rw [toNat_htons, toNat_htons]
  unfold swap
  omega

/-- A field stored in network order is read back. -/
theorem fieldAt_stored {icmp : List UInt8} {k : Nat} {v : UInt16}
    (h0 : icmp[k]? = some (htons v).toUInt8)
    (h1 : icmp[k + 1]? = some ((htons v) >>> 8).toUInt8) : fieldAt icmp k = v := by
  have hword : UInt16.ofNat (htons v).toNat = htons v := UInt16.ofNat_toNat
  unfold fieldAt
  rw [List.getD_eq_getElem?_getD, List.getD_eq_getElem?_getD, h0, h1, Option.getD_some,
    Option.getD_some, littleEndian_bytesLe, hword, htons_htons]

/-! ## Messages behind a header -/

namespace IpHeader

variable (h : IpHeader)

theorem length_le : h.bytes.length ≤ 60 := by
  have hihl := h.ihl
  unfold ipHeaderLen at hihl
  have hnibble : (h.bytes.headD 0 &&& 0x0F).toNat ≤ 15 := by
    rw [UInt8.toNat_and]
    exact Nat.and_le_right
  omega

theorem ipHeaderLen_append (icmp : List UInt8) :
    ipHeaderLen (h.bytes ++ icmp) = h.bytes.length := by
  rw [← h.ihl]
  cases hb : h.bytes with
  | nil => exact absurd hb h.nonempty
  | cons b rest => rfl

/-- What a read of `BUF_SIZE` bytes leaves of the message. -/
def received (icmp : List UInt8) : List UInt8 := icmp.take (BUF_SIZE - h.bytes.length)

theorem take_append (icmp : List UInt8) :
    (h.bytes ++ icmp).take BUF_SIZE = h.bytes ++ h.received icmp := by
  have hle := h.length_le
  rw [List.take_append, List.take_of_length_le]
  · rfl
  · unfold BUF_SIZE; omega

/-- The first 60 bytes of a message are always received. -/
theorem getElem?_received {icmp : List UInt8} {j : Nat} (hj : j < 60) :
    (h.received icmp)[j]? = icmp[j]? := by
  have hle := h.length_le
  refine List.getElem?_take_of_lt ?_
  unfold BUF_SIZE
  omega

theorem length_received (icmp : List UInt8) (h8 : 8 ≤ icmp.length) :
    8 ≤ (h.received icmp).length := by
  have hle := h.length_le
  rw [received, List.length_take]
  unfold BUF_SIZE
  omega

/-- The server behind a header. -/
theorem runServer_append {icmp : List UInt8} (h8 : 8 ≤ icmp.length) :
    runServer (h.bytes ++ icmp) =
      if icmp.headD 0 ≠ ICMP_ECHO then none else some (Icmp.echoReply (h.received icmp)) := by
  have hlength := h.length_received icmp h8
  have hhead : (h.received icmp).headD 0 = icmp.headD 0 := by
    have h0 : (h.received icmp)[0]? = icmp[0]? := h.getElem?_received (by omega)
    rw [← List.head?_eq_getElem?, ← List.head?_eq_getElem?] at h0
    rw [List.headD_eq_head?_getD, List.headD_eq_head?_getD, h0]
  unfold runServer
  simp only [h.take_append, h.ipHeaderLen_append, List.drop_left, hhead, List.length_append]
  rw [if_neg (by omega), if_neg (by omega)]

/-- The client behind a header. -/
theorem readReply_append {icmp : List UInt8} (h8 : 8 ≤ icmp.length) :
    readReply (h.bytes ++ icmp) =
      if icmp.headD 0 = ICMP_ECHOREPLY then .echoReply (fieldAt icmp 4) (fieldAt icmp 6)
      else .nonEcho := by
  have hlength := h.length_received icmp h8
  have hhead : (h.received icmp).headD 0 = icmp.headD 0 := by
    have h0 : (h.received icmp)[0]? = icmp[0]? := h.getElem?_received (by omega)
    rw [← List.head?_eq_getElem?, ← List.head?_eq_getElem?] at h0
    rw [List.headD_eq_head?_getD, List.headD_eq_head?_getD, h0]
  have hfield : ∀ k, k + 1 < 60 → fieldAt (h.received icmp) k = fieldAt icmp k := by
    intro k hk
    unfold fieldAt
    simp only [List.getD_eq_getElem?_getD, h.getElem?_received hk,
      h.getElem?_received (Nat.lt_of_succ_lt hk)]
  unfold readReply
  simp only [h.take_append, h.ipHeaderLen_append, List.drop_left, hhead, List.length_append,
    hfield 4 (by omega), hfield 6 (by omega)]
  rw [if_neg (by omega), if_neg (by omega)]

end IpHeader

/-! ## One request and its answer -/

theorem buildRequest_cons (id seq : UInt16) (payload : List UInt8) :
    ∃ c d, buildRequest id seq payload =
      ICMP_ECHO :: 0 :: c :: d :: (bytesLe (htons id) ++ bytesLe (htons seq) ++ payload) ∧
      c = (icmpChecksum (ICMP_ECHO :: 0 :: 0 :: 0 ::
        (bytesLe (htons id) ++ bytesLe (htons seq) ++ payload))).toUInt8 ∧
      d = ((icmpChecksum (ICMP_ECHO :: 0 :: 0 :: 0 ::
        (bytesLe (htons id) ++ bytesLe (htons seq) ++ payload))) >>> 8).toUInt8 :=
  ⟨_, _, rfl, rfl, rfl⟩

theorem buildRequest_length (id seq : UInt16) (payload : List UInt8) :
    (buildRequest id seq payload).length = payload.length + 8 := by
  obtain ⟨c, d, heq, -, -⟩ := buildRequest_cons id seq payload
  rw [heq]
  simp [bytesLe]

theorem echoReply_length (icmp : List UInt8) : (echoReply icmp).length = icmp.length := by
  simp [echoReply, setChecksum]

/-- A reply differs from its request in the type and the checksum only. -/
theorem getElem?_echoReply {icmp : List UInt8} {j : Nat} (h0 : j ≠ 0) (h2 : j ≠ 2) (h3 : j ≠ 3) :
    (echoReply icmp)[j]? = icmp[j]? := by
  simp [echoReply, setChecksum, List.getElem?_set_ne, Ne.symm h0, Ne.symm h2, Ne.symm h3]

theorem headD_echoReply {icmp : List UInt8} (h : icmp ≠ []) :
    (echoReply icmp).headD 0 = ICMP_ECHOREPLY := by
  cases icmp with
  | nil => exact absurd rfl h
  | cons b rest => rfl

/-- The bytes after the first four are the id, the sequence number and the payload. -/
theorem getElem?_buildRequest (id seq : UInt16) (payload : List UInt8) (j : Nat) :
    (buildRequest id seq payload)[j + 4]? =
      (bytesLe (htons id) ++ bytesLe (htons seq) ++ payload)[j]? := by
  obtain ⟨c, d, heq, -, -⟩ := buildRequest_cons id seq payload
  rw [heq]
  rfl

/-- The fields of a message that repeats the request from its fifth byte on. -/
theorem fieldAt_request {icmp : List UInt8} {id seq : UInt16} {payload : List UInt8}
    (h : ∀ j, j < 4 → icmp[j + 4]? = (buildRequest id seq payload)[j + 4]?) :
    fieldAt icmp 4 = id ∧ fieldAt icmp 6 = seq := by
  have hbyte : ∀ j, j < 4 → icmp[j + 4]? =
      (bytesLe (htons id) ++ bytesLe (htons seq) ++ payload)[j]? := fun j hj => by
    rw [h j hj, getElem?_buildRequest]
  exact ⟨fieldAt_stored (hbyte 0 (by omega)) (hbyte 1 (by omega)),
    fieldAt_stored (hbyte 2 (by omega)) (hbyte 3 (by omega))⟩

/-- **Ping round trip**: behind any two IP headers, the server answers every request the client can
build, and the client reports the answer with the id and the sequence number of its request.
Both messages have checksum 0 where they are sent whole, and the answer carries the payload as far
as the server received it. -/
theorem ping_roundTrip (h h' : IpHeader) (id seq : UInt16) (payload : List UInt8) :
    ∃ reply, runServer (h.bytes ++ buildRequest id seq payload) = some reply ∧
      readReply (h'.bytes ++ reply) = .echoReply id seq ∧
      reply.drop 8 = payload.take (BUF_SIZE - h.bytes.length - 8) ∧
      icmpChecksum reply = 0 ∧
      (payload.length ≤ 131066 → icmpChecksum (buildRequest id seq payload) = 0) := by
  have hlength := buildRequest_length id seq payload
  have h8 : 8 ≤ (buildRequest id seq payload).length := by omega
  have h8' := h.length_received _ h8
  have htype : (buildRequest id seq payload).headD 0 = ICMP_ECHO := rfl
  refine ⟨_, by rw [h.runServer_append h8, if_neg (not_not_intro htype)], ?_, ?_, ?_, ?_⟩
  · have hne : h.received (buildRequest id seq payload) ≠ [] := by
      intro hnil
      rw [hnil] at h8'
      exact absurd h8' (by decide)
    rw [h'.readReply_append (by rw [echoReply_length]; exact h8'), headD_echoReply hne, if_pos rfl]
    have hcopied : ∀ j, j < 4 →
        (echoReply (h.received (buildRequest id seq payload)))[j + 4]? =
          (buildRequest id seq payload)[j + 4]? := fun j hj => by
      rw [getElem?_echoReply (by omega) (by omega) (by omega), h.getElem?_received (by omega)]
    obtain ⟨hid, hseq⟩ := fieldAt_request hcopied
    rw [hid, hseq]
  · apply List.ext_getElem?
    intro j
    rw [List.getElem?_drop, getElem?_echoReply (by omega) (by omega) (by omega),
      IpHeader.received, List.getElem?_take, List.getElem?_take,
      show 8 + j = j + 4 + 4 by omega, getElem?_buildRequest]
    have hpayload : (bytesLe (htons id) ++ bytesLe (htons seq) ++ payload)[j + 4]? =
        payload[j]? := rfl
    have hcut : j + 4 + 4 < BUF_SIZE - h.bytes.length ↔ j < BUF_SIZE - h.bytes.length - 8 := by
      omega
    rw [hpayload, if_congr hcut rfl rfl]
  · have hsize : (h.received (buildRequest id seq payload)).length ≤ 1500 := by
      rw [IpHeader.received, List.length_take]
      unfold BUF_SIZE
      omega
    match hreceived : h.received (buildRequest id seq payload) with
    | [] | [_] | [_, _] | [_, _, _] =>
      rw [hreceived] at h8'
      simp only [List.length_cons, List.length_nil] at h8'
      omega
    | type :: code :: c :: d :: rest =>
      rw [hreceived] at hsize
      simp only [List.length_cons] at hsize
      rw [echoReply_cons]
      exact icmpChecksum_setChecksum (by omega)
  · intro hsize
    obtain ⟨c, d, heq, rfl, rfl⟩ := buildRequest_cons id seq payload
    rw [heq]
    refine icmpChecksum_setChecksum ?_
    simp [bytesLe]
    omega

/-! ## Clients and servers on one network -/

/-- The datagrams on the way and the lines the clients have printed. -/
structure PingNet where
  wire : List (List UInt8)
  waiting : Nat
  lines : List Line

inductive PingAction where
  /-- A client sends its request and waits. -/
  | request (h : IpHeader)
  /-- A server reads the datagram at a position. -/
  | serve (i : Nat) (h : IpHeader)
  /-- A waiting client reads it. -/
  | read (i : Nat)
  /-- A waiting client gives up. -/
  | timeout
  /-- The network loses or copies it. -/
  | lose (i : Nat)
  | copy (i : Nat)

def pingStep (s : PingNet) : PingAction → Option PingNet
  | .request h =>
    some { s with wire := s.wire ++ [h.bytes ++ clientRequest], waiting := s.waiting + 1 }
  | .serve i h => do
    let datagram ← s.wire[i]?
    let reply := (runServer datagram).map (h.bytes ++ ·)
    some { s with wire := s.wire.eraseIdx i ++ reply.toList }
  | .read i => do
    let datagram ← s.wire[i]?
    if 0 < s.waiting then
      some { wire := s.wire.eraseIdx i, waiting := s.waiting - 1,
             lines := s.lines ++ [readReply datagram] }
    else none
  | .timeout =>
    if 0 < s.waiting then
      some { s with waiting := s.waiting - 1, lines := s.lines ++ [.timeout] }
    else none
  | .lose i => if i < s.wire.length then some { s with wire := s.wire.eraseIdx i } else none
  | .copy i => do
    let datagram ← s.wire[i]?
    some { s with wire := s.wire ++ [datagram] }

def pingNetwork : Machine PingNet PingAction := ⟨⟨[], 0, []⟩, pingStep⟩

/-- A request of a client, behind a header. -/
def IsRequest (d : List UInt8) : Prop := ∃ h : IpHeader, d = h.bytes ++ clientRequest

/-- An answer to one, behind a header. -/
def IsReply (d : List UInt8) : Prop := ∃ h : IpHeader, d = h.bytes ++ echoReply clientRequest

theorem clientRequest_length : clientRequest.length = 18 := buildRequest_length 1234 1 helloIcmp

theorem IsRequest.served {d : List UInt8} (hd : IsRequest d) :
    runServer d = some (echoReply clientRequest) := by
  obtain ⟨h, rfl⟩ := hd
  have hle := h.length_le
  have hlength := clientRequest_length
  have hwhole : h.received clientRequest = clientRequest :=
    List.take_of_length_le (by unfold BUF_SIZE; omega)
  have htype : clientRequest.headD 0 = ICMP_ECHO := rfl
  rw [h.runServer_append (by omega), if_neg (not_not_intro htype), hwhole]

theorem IsRequest.read {d : List UInt8} (hd : IsRequest d) : readReply d = .nonEcho := by
  obtain ⟨h, rfl⟩ := hd
  have hlength := clientRequest_length
  have htype : clientRequest.headD 0 ≠ ICMP_ECHOREPLY := by
    show ICMP_ECHO ≠ ICMP_ECHOREPLY
    decide
  rw [h.readReply_append (by omega), if_neg htype]

theorem clientReply_head : (echoReply clientRequest).headD 0 = ICMP_ECHOREPLY :=
  headD_echoReply fun hnil => by
    have hlength := clientRequest_length
    rw [hnil] at hlength
    cases hlength

/-- A server never answers an answer. -/
theorem IsReply.served {d : List UInt8} (hd : IsReply d) : runServer d = none := by
  obtain ⟨h, rfl⟩ := hd
  have hlength := clientRequest_length
  have htype : (echoReply clientRequest).headD 0 ≠ ICMP_ECHO := by
    rw [clientReply_head]
    decide
  rw [h.runServer_append (by rw [echoReply_length]; omega), if_pos htype]

theorem IsReply.read {d : List UInt8} (hd : IsReply d) : readReply d = .echoReply 1234 1 := by
  obtain ⟨h, rfl⟩ := hd
  have hlength := clientRequest_length
  have hcopied : ∀ j, j < 4 → (echoReply clientRequest)[j + 4]? =
      (buildRequest 1234 1 helloIcmp)[j + 4]? :=
    fun j _ => getElem?_echoReply (by omega) (by omega) (by omega)
  obtain ⟨hid, hseq⟩ := fieldAt_request hcopied
  rw [h.readReply_append (by rw [echoReply_length]; omega), if_pos clientReply_head, hid, hseq]

/-- The steps a datagram can still cause. -/
def traffic (d : List UInt8) : Nat := if (runServer d).isSome then 2 else 1

def totalTraffic (s : PingNet) : Nat := (s.wire.map traffic).sum

theorem traffic_pos (d : List UInt8) : 1 ≤ traffic d ∧ traffic d ≤ 2 := by
  unfold traffic
  split <;> omega

/-- Taking a datagram off the network takes its traffic off. -/
theorem totalTraffic_eraseIdx {wire : List (List UInt8)} {i : Nat} {d : List UInt8}
    (hi : wire[i]? = some d) :
    (wire.map traffic).sum = traffic d + ((wire.eraseIdx i).map traffic).sum := by
  obtain ⟨hlt, rfl⟩ := List.getElem?_eq_some_iff.mp hi
  have hperm := (List.getElem_cons_eraseIdx_perm hlt).map traffic
  rw [← hperm.sum_eq, List.map_cons, List.sum_cons]

/-- A client sends its request. -/
def sends : PingNet × PingAction → Bool
  | (_, .request _) => true
  | _ => false

/-- A client sends, or the network makes a copy. -/
def bringsTraffic : PingNet × PingAction → Bool
  | (_, .request _) | (_, .copy _) => true
  | _ => false

/-- A datagram is served, read or lost. -/
def takesTraffic : PingNet × PingAction → Bool
  | (_, .serve _ _) | (_, .read _) | (_, .lose _) => true
  | _ => false

/-- A server answers. -/
def Answers (p : PingNet × PingAction) : Prop :=
  ∃ i h d, p.2 = .serve i h ∧ p.1.wire[i]? = some d ∧ (runServer d).isSome

/-- Everything on the network is a request or an answer to one, everything printed comes from
these, and the traffic is paid for. -/
structure PingInv (hist : List (PingNet × PingAction)) (s : PingNet) : Prop where
  wire : ∀ d ∈ s.wire, IsRequest d ∨ (IsReply d ∧ ∃ p ∈ hist, Answers p)
  lines : ∀ line ∈ s.lines, line = .timeout ∨ line = .nonEcho ∨
    (line = .echoReply 1234 1 ∧ ∃ p ∈ hist, Answers p)
  printed : s.lines.length + s.waiting = hist.countP sends
  paid : hist.countP takesTraffic + totalTraffic s ≤ 2 * hist.countP bringsTraffic

variable {hist : List (PingNet × PingAction)} {s s' : PingNet}

theorem PingInv.answered {p : PingNet × PingAction} (h : ∃ q ∈ hist, Answers q) :
    ∃ q ∈ p :: hist, Answers q := by
  obtain ⟨q, hq, ha⟩ := h
  exact ⟨q, List.mem_cons_of_mem _ hq, ha⟩

/-- What is on the network stays a request or an answer. -/
theorem PingInv.keepWire (h : PingInv hist s) {p : PingNet × PingAction} :
    ∀ d ∈ s.wire, IsRequest d ∨ (IsReply d ∧ ∃ q ∈ p :: hist, Answers q) :=
  fun d hd => (h.wire d hd).imp id fun hreply => ⟨hreply.1, answered hreply.2⟩

theorem PingInv.keepLines (h : PingInv hist s) {p : PingNet × PingAction} :
    ∀ line ∈ s.lines, line = .timeout ∨ line = .nonEcho ∨
      (line = .echoReply 1234 1 ∧ ∃ q ∈ p :: hist, Answers q) :=
  fun line hline => (h.lines line hline).imp id fun hor => hor.imp id fun hecho =>
    ⟨hecho.1, answered hecho.2⟩

theorem PingInv.step (h : PingInv hist s) {a : PingAction} (hstep : pingStep s a = some s') :
    PingInv ((s, a) :: hist) s' := by
  have hpaid := h.paid
  have hprinted := h.printed
  have hwire := h.keepWire (p := (s, a))
  have hlines := h.keepLines (p := (s, a))
  have herase : ∀ {i d}, d ∈ s.wire.eraseIdx i → d ∈ s.wire :=
    fun hd => (List.eraseIdx_sublist _ _).subset hd
  unfold totalTraffic at hpaid
  cases a with
  | request header =>
    cases hstep
    have hpos := traffic_pos (header.bytes ++ clientRequest)
    refine ⟨fun d hd => ?_, hlines, ?_, ?_⟩
    · rcases List.mem_append.mp hd with hd | hd
      · exact hwire d hd
      · exact Or.inl ⟨header, List.mem_singleton.mp hd⟩
    · rw [List.countP_cons_of_pos rfl, ← hprinted]
      rfl
    · rw [List.countP_cons_of_neg Bool.false_ne_true, List.countP_cons_of_pos rfl]
      simp only [totalTraffic, List.map_append, List.sum_append, List.map_cons, List.map_nil,
        List.sum_cons, List.sum_nil]
      omega
  | serve i header =>
    obtain ⟨d, hd, hs'⟩ := Option.bind_eq_some_iff.mp hstep
    cases hs'
    have htraffic := totalTraffic_eraseIdx hd
    have hmem := List.mem_of_getElem? hd
    refine ⟨fun e he => ?_, hlines, ?_, ?_⟩
    · rcases List.mem_append.mp he with he | he
      · exact hwire e (herase he)
      · rcases h.wire d hmem with hreq | ⟨hreply, -⟩
        · rw [hreq.served] at he
          refine Or.inr ⟨⟨header, List.mem_singleton.mp he⟩, _, List.mem_cons_self, i, header, d,
            rfl, hd, ?_⟩
          rw [hreq.served]
          rfl
        · rw [hreply.served] at he
          cases he
    · rw [List.countP_cons_of_neg Bool.false_ne_true]
      exact hprinted
    · -- a request's two steps are this one and one for its answer
      rw [List.countP_cons_of_pos rfl, List.countP_cons_of_neg Bool.false_ne_true]
      simp only [totalTraffic, List.map_append, List.sum_append]
      rcases h.wire d hmem with hreq | ⟨hreply, -⟩
      · have hreply : IsReply (header.bytes ++ echoReply clientRequest) := ⟨header, rfl⟩
        have hone : traffic (header.bytes ++ echoReply clientRequest) = 1 := by
          simp [traffic, hreply.served]
        have htwo : traffic d = 2 := by simp [traffic, hreq.served]
        simp only [hreq.served, Option.map_some, Option.toList_some, List.map_cons, List.map_nil,
          List.sum_cons, List.sum_nil, hone]
        omega
      · have hpos := traffic_pos d
        simp only [hreply.served, Option.map_none, Option.toList_none, List.map_nil, List.sum_nil]
        omega
  | read i =>
    obtain ⟨d, hd, hs'⟩ := Option.bind_eq_some_iff.mp hstep
    have htraffic := totalTraffic_eraseIdx hd
    have hpos := traffic_pos d
    split at hs'
    · rename_i hwaiting
      cases hs'
      refine ⟨fun e he => hwire e (herase he), fun line hline => ?_, ?_, ?_⟩
      · rcases List.mem_append.mp hline with hline | hline
        · exact hlines line hline
        · rw [List.mem_singleton] at hline
          rcases hwire d (List.mem_of_getElem? hd) with hreq | ⟨hreply, hanswered⟩
          · exact Or.inr (Or.inl (hline.trans hreq.read))
          · exact Or.inr (Or.inr ⟨hline.trans hreply.read, hanswered⟩)
      · rw [List.countP_cons_of_neg Bool.false_ne_true, ← hprinted, List.length_append,
          List.length_singleton]
        simp only
        omega
      · rw [List.countP_cons_of_pos rfl, List.countP_cons_of_neg Bool.false_ne_true]
        simp only [totalTraffic]
        omega
    · cases hs'
  | timeout =>
    simp only [pingStep] at hstep
    split at hstep
    · rename_i hwaiting
      cases hstep
      refine ⟨hwire, fun line hline => ?_, ?_, ?_⟩
      · rcases List.mem_append.mp hline with hline | hline
        · exact hlines line hline
        · exact Or.inl (List.mem_singleton.mp hline)
      · rw [List.countP_cons_of_neg Bool.false_ne_true, ← hprinted, List.length_append,
          List.length_singleton]
        simp only
        omega
      · rw [List.countP_cons_of_neg Bool.false_ne_true, List.countP_cons_of_neg Bool.false_ne_true]
        exact hpaid
    · cases hstep
  | lose i =>
    simp only [pingStep] at hstep
    split at hstep
    · rename_i hi
      cases hstep
      have htraffic := totalTraffic_eraseIdx (List.getElem?_eq_getElem hi)
      have hpos := traffic_pos s.wire[i]
      refine ⟨fun e he => hwire e (herase he), hlines, ?_, ?_⟩
      · rw [List.countP_cons_of_neg Bool.false_ne_true]
        exact hprinted
      · rw [List.countP_cons_of_pos rfl, List.countP_cons_of_neg Bool.false_ne_true]
        simp only [totalTraffic]
        omega
    · cases hstep
  | copy i =>
    obtain ⟨d, hd, hs'⟩ := Option.bind_eq_some_iff.mp hstep
    cases hs'
    have hpos := traffic_pos d
    refine ⟨fun e he => ?_, hlines, ?_, ?_⟩
    · rcases List.mem_append.mp he with he | he
      · exact hwire e he
      · rw [List.mem_singleton] at he
        exact he ▸ hwire d (List.mem_of_getElem? hd)
    · rw [List.countP_cons_of_neg Bool.false_ne_true]
      exact hprinted
    · rw [List.countP_cons_of_neg Bool.false_ne_true, List.countP_cons_of_pos rfl]
      simp only [totalTraffic, List.map_append, List.sum_append, List.map_cons, List.map_nil,
        List.sum_cons, List.sum_nil]
      omega

theorem pingInv (hr : Run pingNetwork hist s) : PingInv hist s := by
  induction hr with
  | nil => exact ⟨fun d hd => (nomatch hd), fun line hline => (nomatch hline), rfl, Nat.le_refl _⟩
  | snoc _ hstep ih => exact ih.step hstep

/-- **Pings on any network**: whatever is lost, copied and overtaken, a client prints a timeout, a
message that is no answer, or an answer with its own id and number, and an answer only if a server
has answered; no client prints `bad reply`; each client prints at most one line.  And the
datagrams handled are at most two for each request sent or copied: answers are never answered. -/
theorem pingNetwork_safe (hr : Run pingNetwork hist s) :
    (∀ line ∈ s.lines, line = .timeout ∨ line = .nonEcho ∨
      (line = .echoReply 1234 1 ∧ ∃ p ∈ hist, Answers p)) ∧
    s.lines.length + s.waiting = hist.countP sends ∧
    hist.countP takesTraffic ≤ 2 * hist.countP bringsTraffic := by
  have hI := pingInv hr
  exact ⟨hI.lines, hI.printed, Nat.le_trans (Nat.le_add_right _ _) hI.paid⟩

/-- A header of 20 bytes. -/
def plainHeader : IpHeader where
  bytes := 0x45 :: List.replicate 19 0
  nonempty := List.cons_ne_nil _ _
  ihl := by decide

/-- One request, copied, served twice, one of the answers read. -/
theorem pingNetwork_safe_copy : ∃ hist s, Run pingNetwork hist s ∧
    s.lines = [.echoReply 1234 1] ∧ (∃ p ∈ hist, Answers p) ∧
    hist.countP takesTraffic ≤ 2 * hist.countP bringsTraffic := by
  obtain ⟨hist, s, hr, -, hp⟩ := exists_run_of_exec (M := pingNetwork)
    [.request plainHeader, .copy 0, .serve 0 plainHeader, .serve 0 plainHeader, .read 1]
    (p := fun s => decide (s.lines = [.echoReply 1234 1])) (by decide +kernel)
  have hlines := of_decide_eq_true hp
  obtain ⟨hall, -, hpaid⟩ := pingNetwork_safe hr
  rcases hall (.echoReply 1234 1) (by rw [hlines]; exact List.mem_cons_self) with h | h | h
  · cases h
  · cases h
  · exact ⟨hist, s, hr, hlines, h.2, hpaid⟩

end CampusNet.Icmp
