import CampusNet.Lib.Buffer
import CampusNet.Lib.CText
import Mathlib.Data.Fin.VecNotation
import Mathlib.Data.Fintype.Pi

/-!
# DHCP packets

Model of the packet functions of `homework9/dhcp_server.cpp`.

Fields that the code only copies or compares are their bytes in network order.  `options` is the
memory from the start of the option array on: the array is its first 312 bytes, and what lies at
312 and after is whatever follows the structure.

* `scanOptions` — the loop shared by the two option scanners; it returns where the option starts.
* `getDhcpMessageType`, `getRequestedIp` — the two scanners.
* `buildReply` — the reply to a request.
* `macKey_injective` — two hardware addresses with the same text are the same.
-/

namespace CampusNet.Dhcp

open Buffer

abbrev Bytes (n : Nat) := Fin n → UInt8

def DHCP_FIXED_IP : Bytes 4 := ![192, 168, 1, 2]
def DHCP_NETMASK : Bytes 4 := ![255, 255, 255, 0]
def DHCP_ROUTER : Bytes 4 := ![192, 168, 1, 1]
def DHCP_DNS : Bytes 4 := ![8, 8, 8, 8]
def DHCP_MAGIC_COOKIE : Bytes 4 := ![0x63, 0x82, 0x53, 0x63]
def LEASE_TIME : Bytes 4 := ![0, 0, 0x0E, 0x10]

def DHCP_OP_BOOTREPLY : UInt8 := 2
def DHCP_HTYPE_ETHERNET : UInt8 := 1
def DHCP_HLEN_ETHERNET : UInt8 := 6
def DHCP_MSG_DISCOVER : UInt8 := 1
def DHCP_MSG_OFFER : UInt8 := 2
def DHCP_MSG_REQUEST : UInt8 := 3
def DHCP_MSG_ACK : UInt8 := 5

def DHCP_OPT_PAD : UInt8 := 0
def DHCP_OPT_SUBNET_MASK : UInt8 := 1
def DHCP_OPT_ROUTER : UInt8 := 3
def DHCP_OPT_DNS : UInt8 := 6
def DHCP_OPT_REQUESTED_IP : UInt8 := 50
def DHCP_OPT_LEASE_TIME : UInt8 := 51
def DHCP_OPT_MSG_TYPE : UInt8 := 53
def DHCP_OPT_SERVER_ID : UInt8 := 54
def DHCP_OPT_END : UInt8 := 255

/-- `sizeof(pkt.options)`. -/
def OPTIONS_SIZE : Nat := 312

/-- `sizeof(dhcp_packet)`; the options start at 240. -/
def PACKET_SIZE : Nat := 552

structure DhcpPacket where
  op : UInt8
  htype : UInt8
  hlen : UInt8
  hops : UInt8
  xid : Bytes 4
  secs : Bytes 2
  flags : Bytes 2
  ciaddr : Bytes 4
  yiaddr : Bytes 4
  siaddr : Bytes 4
  giaddr : Bytes 4
  chaddr : Bytes 16
  sname : Bytes 64
  file : Bytes 128
  magicCookie : Bytes 4
  options : Buf

/-- `memcpy(&req, buf, sizeof(dhcp_packet))`; `mem` is the buffer, followed by what lies behind
`req`. -/
def DhcpPacket.ofMemory (mem : Buf) : DhcpPacket where
  op := mem 0
  htype := mem 1
  hlen := mem 2
  hops := mem 3
  xid i := mem (4 + i)
  secs i := mem (8 + i)
  flags i := mem (10 + i)
  ciaddr i := mem (12 + i)
  yiaddr i := mem (16 + i)
  siaddr i := mem (20 + i)
  giaddr i := mem (24 + i)
  chaddr i := mem (28 + i)
  sname i := mem (44 + i)
  file i := mem (108 + i)
  magicCookie i := mem (236 + i)
  options j := mem (240 + j)

/-! ## Option scanners -/

/-- The scan from index `i` for an option whose code and length are `wanted`.  The index grows
in every round, so one round for each byte of the array is enough. -/
def scanOptions (options : Buf) (wanted : UInt8 → UInt8 → Bool) :
    Nat → Nat → Option Nat
  | 0, _ => none
  | rounds + 1, i =>
    if i < OPTIONS_SIZE then
      let code := options i
      if code = DHCP_OPT_END then none
      else if code = DHCP_OPT_PAD then scanOptions options wanted rounds (i + 1)
      else if i + 1 ≥ OPTIONS_SIZE then none
      else
        let len := options (i + 1)
        if wanted code len then some i
        else scanOptions options wanted rounds (i + (2 + len.toNat))
    else none

def getDhcpMessageType (pkt : DhcpPacket) : UInt8 :=
  match scanOptions pkt.options (fun code len => code = DHCP_OPT_MSG_TYPE ∧ len ≥ 1)
      OPTIONS_SIZE 0 with
  | some i => pkt.options (i + 2)
  | none => 0

def getRequestedIp (pkt : DhcpPacket) : Bytes 4 :=
  match scanOptions pkt.options (fun code len => code = DHCP_OPT_REQUESTED_IP ∧ len = 4)
      OPTIONS_SIZE 0 with
  | some i => fun k => pkt.options (i + 2 + k)
  | none => 0

/-! ## Replies -/

/-- The option array after the write, and the position behind it. -/
def writeOption (opt : Buf) (pos : Nat) (code : UInt8) (data : List UInt8) :
    Buf × Nat :=
  (writeBytes opt pos (code :: UInt8.ofNat data.length :: data), pos + 2 + data.length)

def writeMessageType (opt : Buf) (pos : Nat) (type : UInt8) : Buf × Nat :=
  writeOption opt pos DHCP_OPT_MSG_TYPE [type]

def buildOptions (msgType : UInt8) (serverIp : Bytes 4) : Buf :=
  let (opt, pos) := writeMessageType (fun _ => 0) 0 msgType
  let (opt, pos) := writeOption opt pos DHCP_OPT_SUBNET_MASK (List.ofFn DHCP_NETMASK)
  let (opt, pos) := writeOption opt pos DHCP_OPT_ROUTER (List.ofFn DHCP_ROUTER)
  let (opt, pos) := writeOption opt pos DHCP_OPT_DNS (List.ofFn DHCP_DNS)
  let (opt, pos) := writeOption opt pos DHCP_OPT_LEASE_TIME (List.ofFn LEASE_TIME)
  let (opt, pos) := writeOption opt pos DHCP_OPT_SERVER_ID (List.ofFn serverIp)
  writeBytes opt pos [DHCP_OPT_END]

def buildReply (req : DhcpPacket) (msgType : UInt8) (yiaddr serverIp : Bytes 4) : DhcpPacket where
  op := DHCP_OP_BOOTREPLY
  htype := DHCP_HTYPE_ETHERNET
  hlen := DHCP_HLEN_ETHERNET
  hops := 0
  xid := req.xid
  secs := req.secs
  flags := req.flags
  ciaddr := 0
  yiaddr := yiaddr
  siaddr := serverIp
  giaddr := req.giaddr
  chaddr := req.chaddr
  sname := 0
  file := 0
  magicCookie := DHCP_MAGIC_COOKIE
  options := buildOptions msgType serverIp

/-! ## Hardware addresses -/

abbrev Mac := Bytes 6

/-- The hardware address at the front of `chaddr`. -/
def DhcpPacket.mac (pkt : DhcpPacket) : Mac := fun i => pkt.chaddr (Fin.castLE (by decide) i)

def macEqual (a b : Mac) : Bool := decide (∀ i, a i = b i)

def hexDigit (n : Nat) : Char := if n < 10 then Char.ofNat (48 + n) else Char.ofNat (55 + n)

/-- `%02X`. -/
def hexByte (b : UInt8) : Text := [hexDigit (b.toNat / 16), hexDigit (b.toNat % 16)]

/-- `"%02X:%02X:%02X:%02X:%02X:%02X"`. -/
def macKey (mac : Mac) : Text :=
  hexByte (mac 0) ++ ':' :: (hexByte (mac 1) ++ ':' :: (hexByte (mac 2) ++ ':' ::
    (hexByte (mac 3) ++ ':' :: (hexByte (mac 4) ++ ':' :: hexByte (mac 5)))))

theorem macEqual_iff {a b : Mac} : macEqual a b = true ↔ a = b := by
  rw [macEqual, decide_eq_true_iff, funext_iff]

theorem hexDigit_injective : ∀ m < 16, ∀ n < 16, hexDigit m = hexDigit n → m = n := by decide

theorem hexByte_injective {a b : UInt8} (h : hexByte a = hexByte b) : a = b := by
  have ha := a.toNat_lt
  have hb := b.toNat_lt
  simp only [hexByte, List.cons.injEq, and_true] at h
  have hhigh := hexDigit_injective _ (by omega) _ (by omega) h.1
  have hlow := hexDigit_injective _ (by omega) _ (by omega) h.2
  apply UInt8.toNat.inj
  omega

theorem macKey_injective {a b : Mac} (h : macKey a = macKey b) : a = b := by
  have hsplit : ∀ {x y : UInt8} {s t : Text}, hexByte x ++ s = hexByte y ++ t → x = y ∧ s = t :=
    fun he => (List.append_inj he rfl).imp hexByte_injective id
  obtain ⟨h0, h⟩ := hsplit h
  obtain ⟨h1, h⟩ := hsplit (List.cons.inj h).2
  obtain ⟨h2, h⟩ := hsplit (List.cons.inj h).2
  obtain ⟨h3, h⟩ := hsplit (List.cons.inj h).2
  obtain ⟨h4, h⟩ := hsplit (List.cons.inj h).2
  have h5 := hexByte_injective (List.cons.inj h).2
  funext i
  match i with
  | 0 => exact h0
  | 1 => exact h1
  | 2 => exact h2
  | 3 => exact h3
  | 4 => exact h4
  | 5 => exact h5

end CampusNet.Dhcp
