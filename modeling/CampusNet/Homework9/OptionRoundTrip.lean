import CampusNet.Homework9.OptionReads

/-!
# Options written and read back

Options go into the array with `write_option`, one after the other, with pad bytes between them
and the end code behind them; the two scanners read them back.

* `writeItems` — the array after the writes, over any bytes that were there, and the position
  behind the end code.
* `messageTypeOf`, `requestedIpOf` — what a list of options says, read off the list.
* `writeItems_eq` — the writes leave the encoding of the list at the front of the array.
* `optionRoundTrip` — the scanners return what the list says.
-/

namespace CampusNet.Dhcp

open Buffer Tlv

/-- One more element at the write position: a pad byte, or a call of `write_option`. -/
def writeItem (w : Buf × Nat) : OptionItem → Buf × Nat
  | .pad => (writeBytes w.1 w.2 [DHCP_OPT_PAD], w.2 + 1)
  | .field f => writeOption w.1 w.2 f.code f.data

/-- The elements, and the end code behind them. -/
def writeItems (opt : Buf) (items : List OptionItem) : Buf × Nat :=
  let (opt, pos) := items.foldl writeItem (opt, 0)
  (writeBytes opt pos [DHCP_OPT_END], pos + 1)

/-- The first data byte of the first option 53 that has data. -/
def messageTypeOf (items : List OptionItem) : UInt8 :=
  match (fields items).find? fun f => f.code = DHCP_OPT_MSG_TYPE ∧ f.data ≠ [] with
  | some f => f.data.headD 0
  | none => 0

/-- The data of the first option 50 that has four bytes of data. -/
def requestedIpOf (items : List OptionItem) : Bytes 4 :=
  match (fields items).find? fun f => f.code = DHCP_OPT_REQUESTED_IP ∧ f.data.length = 4 with
  | some f => fun k => f.data.getD k 0
  | none => 0

/-! ## What is written -/

/-- An option goes behind what has been written. -/
theorem writeOption_append (mem : Buf) (xs : List UInt8) (code : UInt8) (data : List UInt8) :
    writeOption (writeBytes mem 0 xs) xs.length code data =
      (writeBytes mem 0 (xs ++ code :: UInt8.ofNat data.length :: data),
        (xs ++ code :: UInt8.ofNat data.length :: data).length) := by
  have hlength : (xs ++ code :: UInt8.ofNat data.length :: data).length =
      xs.length + 2 + data.length := by
    simp only [List.length_append, List.length_cons]
    omega
  rw [hlength, writeOption, writeBytes_append_front]

theorem writeItem_append (mem : Buf) (xs : List UInt8) (x : OptionItem) :
    writeItem (writeBytes mem 0 xs, xs.length) x =
      (writeBytes mem 0 (xs ++ x.bytes), (xs ++ x.bytes).length) := by
  cases x with
  | pad => simp only [writeItem, Item.bytes, writeBytes_append_front, List.length_append,
      List.length_singleton]
  | field f => exact writeOption_append mem xs f.code f.data

theorem foldl_writeItem (mem : Buf) (items : List OptionItem) (xs : List UInt8) :
    items.foldl writeItem (writeBytes mem 0 xs, xs.length) =
      (writeBytes mem 0 (xs ++ encode items), (xs ++ encode items).length) := by
  induction items generalizing xs with
  | nil => simp
  | cons x items ih =>
    rw [List.foldl_cons, writeItem_append, ih, encode_cons, List.append_assoc]

/-- **The writes leave the encoding.** -/
theorem writeItems_eq (opt : Buf) (items : List OptionItem) :
    writeItems opt items =
      (writeBytes opt 0 (encode items ++ [DHCP_OPT_END]), (encode items).length + 1) := by
  have hstart := foldl_writeItem opt items []
  rw [writeBytes_nil, List.length_nil, List.nil_append] at hstart
  simp only [writeItems, hstart, writeBytes_append_front]

/-! ## What is read back -/

theorem isMessageType_field (f : Field DHCP_OPT_PAD DHCP_OPT_END) :
    isMessageType f.code f.length = decide (f.code = DHCP_OPT_MSG_TYPE ∧ f.data ≠ []) := by
  have hdata : 1 ≤ f.length ↔ f.data ≠ [] := by
    rw [UInt8.le_iff_toNat_le, f.toNat_length, ← List.length_pos_iff]
    rfl
  exact decide_eq_decide.mpr (and_congr_right' hdata)

theorem isRequestedIp_field (f : Field DHCP_OPT_PAD DHCP_OPT_END) :
    isRequestedIp f.code f.length =
      decide (f.code = DHCP_OPT_REQUESTED_IP ∧ f.data.length = 4) := by
  have hdata : f.length = 4 ↔ f.data.length = 4 := by
    rw [← UInt8.toNat_inj, f.toNat_length]
    rfl
  exact decide_eq_decide.mpr (and_congr_right' hdata)

/-- The search for an option in an array that was written. -/
theorem scanOptions_writeItems {opt : Buf} {items : List OptionItem}
    (hfits : (writeItems opt items).2 ≤ OPTIONS_SIZE) (wanted : UInt8 → UInt8 → Bool) :
    (firstField wanted items).elim
      (scanOptions (writeItems opt items).1 wanted OPTIONS_SIZE 0 = none) fun f =>
        ∃ k, scanOptions (writeItems opt items).1 wanted OPTIONS_SIZE 0 = some k ∧
          Carries ((writeItems opt items).1.from (k + 2)) f.data := by
  rw [writeItems_eq] at hfits ⊢
  simp only [scanOptions_eq]
  apply scan_encode pad_ne_end
  · rw [Buf.from_zero]
    exact carries_writeBytes opt _
  · rw [Nat.zero_add]
    exact hfits
  · exact Nat.sub_le _ _

/-- What the writer put first, as the reader of the list sees it. -/
theorem firstField_messageType (items : List OptionItem) :
    messageTypeOf items = (firstField isMessageType items).elim 0 fun f => f.data.headD 0 := by
  simp only [messageTypeOf, firstField, isMessageType_field]
  split
  · rename_i f hfind
    rw [hfind]
    rfl
  · rename_i hfind
    rw [hfind]
    rfl

theorem firstField_requestedIp (items : List OptionItem) :
    requestedIpOf items =
      (firstField isRequestedIp items).elim 0 fun f (k : Fin 4) => f.data.getD k 0 := by
  simp only [requestedIpOf, firstField, isRequestedIp_field]
  split
  · rename_i f hfind
    rw [hfind]
    rfl
  · rename_i hfind
    rw [hfind]
    rfl

theorem getDhcpMessageType_writeItems {pkt : DhcpPacket} {opt : Buf} {items : List OptionItem}
    (hfits : (writeItems opt items).2 ≤ OPTIONS_SIZE)
    (hpkt : pkt.options = (writeItems opt items).1) :
    getDhcpMessageType pkt = messageTypeOf items := by
  have hscan := scanOptions_writeItems hfits isMessageType
  rw [getDhcpMessageType_eq, hpkt, firstField_messageType]
  cases hfirst : firstField isMessageType items with
  | none =>
    rw [hfirst] at hscan
    rw [hscan]
    rfl
  | some f =>
    rw [hfirst] at hscan
    obtain ⟨k, hk, hdata⟩ := hscan
    have hf := firstField_wanted hfirst
    rw [isMessageType_field, decide_eq_true_iff] at hf
    rw [hk]
    cases hlist : f.data with
    | nil => exact absurd hlist hf.2
    | cons b more =>
      rw [hlist] at hdata
      show (writeItems opt items).1 (k + 2) = (f.data.headD 0)
      rw [hlist]
      exact hdata 0 b rfl

theorem getRequestedIp_writeItems {pkt : DhcpPacket} {opt : Buf} {items : List OptionItem}
    (hfits : (writeItems opt items).2 ≤ OPTIONS_SIZE)
    (hpkt : pkt.options = (writeItems opt items).1) :
    getRequestedIp pkt = requestedIpOf items := by
  have hscan := scanOptions_writeItems hfits isRequestedIp
  rw [getRequestedIp_eq, hpkt, firstField_requestedIp]
  cases hfirst : firstField isRequestedIp items with
  | none =>
    rw [hfirst] at hscan
    rw [hscan]
    rfl
  | some f =>
    rw [hfirst] at hscan
    obtain ⟨k, hk, hdata⟩ := hscan
    have hf := firstField_wanted hfirst
    rw [isRequestedIp_field, decide_eq_true_iff] at hf
    rw [hk]
    funext j
    have hj : j.val < f.data.length := by
      rw [hf.2]
      exact j.isLt
    refine hdata j _ ?_
    show f.data[j.val]? = some (f.data.getD j 0)
    rw [List.getD_eq_getElem?_getD, List.getElem?_eq_getElem hj, Option.getD_some]

/-! ## Replies -/

/-- An option written with the bytes of an address or a time. -/
def valueItem (code : UInt8) (data : Bytes 4) (hpad : code ≠ DHCP_OPT_PAD)
    (hend : code ≠ DHCP_OPT_END) : OptionItem :=
  .field ⟨code, List.ofFn data, hpad, hend, by rw [List.length_ofFn]; decide⟩

/-- The options of a reply. -/
def replyItems (msgType : UInt8) (serverIp : Bytes 4) : List OptionItem :=
  [.field ⟨DHCP_OPT_MSG_TYPE, [msgType], by decide, by decide, Nat.one_lt_two.trans (by decide)⟩,
    valueItem DHCP_OPT_SUBNET_MASK DHCP_NETMASK (by decide) (by decide),
    valueItem DHCP_OPT_ROUTER DHCP_ROUTER (by decide) (by decide),
    valueItem DHCP_OPT_DNS DHCP_DNS (by decide) (by decide),
    valueItem DHCP_OPT_LEASE_TIME LEASE_TIME (by decide) (by decide),
    valueItem DHCP_OPT_SERVER_ID serverIp (by decide) (by decide)]

theorem buildOptions_eq (msgType : UInt8) (serverIp : Bytes 4) :
    buildOptions msgType serverIp = (writeItems (fun _ => 0) (replyItems msgType serverIp)).1 :=
  rfl

theorem replyItems_fits (msgType : UInt8) (serverIp : Bytes 4) :
    (writeItems (fun _ => 0) (replyItems msgType serverIp)).2 ≤ OPTIONS_SIZE := by
  rw [writeItems_eq]
  show 34 ≤ OPTIONS_SIZE
  decide

/-- **A reply carries its message type.** -/
theorem getDhcpMessageType_buildReply (req : DhcpPacket) (msgType : UInt8)
    (yiaddr serverIp : Bytes 4) :
    getDhcpMessageType (buildReply req msgType yiaddr serverIp) = msgType :=
  getDhcpMessageType_writeItems (replyItems_fits msgType serverIp)
    (buildOptions_eq msgType serverIp)

/-- A reply asks for no address. -/
theorem getRequestedIp_buildReply (req : DhcpPacket) (msgType : UInt8)
    (yiaddr serverIp : Bytes 4) :
    getRequestedIp (buildReply req msgType yiaddr serverIp) = 0 :=
  getRequestedIp_writeItems (replyItems_fits msgType serverIp) (buildOptions_eq msgType serverIp)

/-- **Options written are read back**: the scanners return what the list of options says, whatever
stood in the array before, in every packet whose options were written so; and a reply gives back
its message type and no requested address. -/
theorem optionRoundTrip :
    (∀ (items : List OptionItem) (opt : Buf) (pkt : DhcpPacket),
      (writeItems opt items).2 ≤ OPTIONS_SIZE → pkt.options = (writeItems opt items).1 →
        getDhcpMessageType pkt = messageTypeOf items ∧ getRequestedIp pkt = requestedIpOf items) ∧
    ∀ (req : DhcpPacket) (msgType : UInt8) (yiaddr serverIp : Bytes 4),
      getDhcpMessageType (buildReply req msgType yiaddr serverIp) = msgType ∧
        getRequestedIp (buildReply req msgType yiaddr serverIp) = 0 :=
  ⟨fun _ _ _ hfits hpkt =>
      ⟨getDhcpMessageType_writeItems hfits hpkt, getRequestedIp_writeItems hfits hpkt⟩,
    fun req msgType yiaddr serverIp =>
      ⟨getDhcpMessageType_buildReply req msgType yiaddr serverIp,
        getRequestedIp_buildReply req msgType yiaddr serverIp⟩⟩

/-- An empty option 53, and an option 12 whose data looks like an option 50, before the two real
ones; the array was full of 50s. -/
def mixedItems : List OptionItem :=
  [.field ⟨DHCP_OPT_MSG_TYPE, [], by decide, by decide, by decide⟩, .pad,
    .field ⟨12, [50, 4, 9, 9, 9, 9, 255], by decide, by decide, by decide⟩,
    .field ⟨DHCP_OPT_MSG_TYPE, [3, 255], by decide, by decide, by decide⟩,
    valueItem DHCP_OPT_REQUESTED_IP DHCP_FIXED_IP (by decide) (by decide)]

def mixedPacket : DhcpPacket :=
  { DhcpPacket.ofMemory fun _ => 0 with options := (writeItems (fun _ => 50) mixedItems).1 }

theorem optionRoundTrip_mixed :
    getDhcpMessageType mixedPacket = 3 ∧ getRequestedIp mixedPacket = DHCP_FIXED_IP := by
  have hread := optionRoundTrip.1 mixedItems (fun _ => 50) mixedPacket (by decide +kernel) rfl
  have htype : messageTypeOf mixedItems = 3 := by decide
  have hip : requestedIpOf mixedItems = DHCP_FIXED_IP := by decide
  rwa [htype, hip] at hread

end CampusNet.Dhcp
