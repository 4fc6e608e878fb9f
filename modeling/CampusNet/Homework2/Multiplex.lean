import CampusNet.Lib.Buffer
import CampusNet.Lib.CInt

/-!
# Multiplexing two bit streams

Model of `homework2/multiplex.cpp`.  Buffers are what the (non-null) pointers point to; `int`
arithmetic that can overflow is checked, and `none` is an overflow.

* `multiplex`, `demultiplex` — the two functions, on the value of `g_multiplex_mode`.
* `doStatTdm`, `doSyncTdm`, `doFdm`, `doCdm` — the four encoders; `decodeSlots`,
  `decodeTokens` — the decoding loops.
-/

namespace CampusNet.Multiplex

open Buffer

def MODE_STAT_TDM : Int := 1
def MODE_SYNC_TDM : Int := 2
def MODE_FDM : Int := 3
def MODE_CDM : Int := 4

/-- The return value, and the new value of `g_multiplex_mode`. -/
def setMultiplexMode (g mode : Int) : Int × Int :=
  if mode < MODE_STAT_TDM ∨ mode > MODE_CDM then (-1, g) else (0, mode)

def toBit (x : UInt8) : UInt8 := if x ≠ 0 then 1 else 0

/-- `write_int_le(p + pos, v)`: the bytes of the two's complement of `v`, lowest first. -/
def writeIntLe (p : Buf) (pos : Nat) (v : Int) : Buf :=
  let u := (v % 2 ^ 32).toNat
  writeBytes p pos [UInt8.ofNat (u &&& 0xFF), UInt8.ofNat ((u >>> 8) &&& 0xFF),
    UInt8.ofNat ((u >>> 16) &&& 0xFF), UInt8.ofNat ((u >>> 24) &&& 0xFF)]

/-- `read_int_le(p + pos)`. -/
def readIntLe (p : Buf) (pos : Nat) : Int :=
  let u := (p pos).toNat ||| (p (pos + 1)).toNat <<< 8 ||| (p (pos + 2)).toNat <<< 16 |||
    (p (pos + 3)).toNat <<< 24
  if u < 2 ^ 31 then u else u - 2 ^ 32

/-! ## Encoders -/

/-- `(i < len) ? to_bit(x[i]) : 0`. -/
def bitAt (x : Buf) (len : Int) (i : Nat) : UInt8 := if i < len then toBit (x i) else 0

def doSyncTdm (out : Buf) (outCap : Int) (a : Buf) (aLen : Int) (b : Buf) (bLen : Int) :
    Option (Int × Buf) := do
  let maxLen := max aLen bLen
  let size ← checkedInt (maxLen * 2)
  if outCap < size then some (-1, out)
  else
    let o := (List.range maxLen.toNat).foldl
      (fun o i => (o.put (bitAt a aLen i)).put (bitAt b bLen i)) (⟨out, 0⟩ : Out)
    some (o.k, o.buf)

/-- The loop over one source: `.error` is the early `return -1`, with the buffer as it is then.
`k` never exceeds `out_cap`, so `k + 3` fits an `int`. -/
def statLoop (src : UInt8) (outCap : Int) (x : Buf) (len : Int) (o : Out) : Except Buf Out :=
  (List.range len.toNat).foldlM (fun o i =>
    if toBit (x i) = 1 then
      if (o.k : Int) + 3 > outCap ∨ i > 65535 then .error o.buf
      else .ok (((o.put src).put (UInt8.ofNat (i &&& 0xFF))).put
        (UInt8.ofNat ((i >>> 8) &&& 0xFF)))
    else .ok o) o

def doStatTdm (out : Buf) (outCap : Int) (a : Buf) (aLen : Int) (b : Buf) (bLen : Int) :
    Int × Buf :=
  match (statLoop 0 outCap a aLen ⟨out, 0⟩).bind (statLoop 1 outCap b bLen) with
  | .error out => (-1, out)
  | .ok o => (o.k, o.buf)

def doFdm (out : Buf) (outCap : Int) (a : Buf) (aLen : Int) (b : Buf) (bLen : Int) : Int × Buf :=
  let maxLen := max aLen bLen
  if outCap < maxLen then (-1, out)
  else
    (maxLen, (List.range maxLen.toNat).foldl
      (fun out i => writeBytes out i [bitAt a aLen i ||| bitAt b bLen i <<< 1]) out)

/-- `(i < len && to_bit(x[i])) ? 1 : -1`. -/
def signAt (x : Buf) (len : Int) (i : Nat) : Int := if i < len ∧ toBit (x i) ≠ 0 then 1 else -1

def doCdm (out : Buf) (outCap : Int) (a : Buf) (aLen : Int) (b : Buf) (bLen : Int) :
    Option (Int × Buf) := do
  let maxLen := max aLen bLen
  let size ← checkedInt (maxLen * 2)
  if outCap < size then some (-1, out)
  else
    let o := (List.range maxLen.toNat).foldl (fun o i =>
      let chip0 := signAt a aLen i * 1 + signAt b bLen i * 1
      let chip1 := signAt a aLen i * 1 + signAt b bLen i * (-1)
      (o.put (UInt8.ofInt (chip0 + 2))).put (UInt8.ofInt (chip1 + 2))) (⟨out, 0⟩ : Out)
    some (o.k, o.buf)

/-- The encoder of the mode. -/
def encodePayload (mode : Int) (out : Buf) (outCap : Int) (a : Buf) (aLen : Int) (b : Buf)
    (bLen : Int) : Option (Int × Buf) :=
  if mode = MODE_STAT_TDM then some (doStatTdm out outCap a aLen b bLen)
  else if mode = MODE_SYNC_TDM then doSyncTdm out outCap a aLen b bLen
  else if mode = MODE_FDM then some (doFdm out outCap a aLen b bLen)
  else if mode = MODE_CDM then doCdm out outCap a aLen b bLen
  else some (-1, out)

def header : Int := 9

/-- The return value and the buffer `c` afterwards. -/
def multiplex (g : Int) (c : Buf) (cSize : Int) (a : Buf) (aLen : Int) (b : Buf) (bLen : Int) :
    Option (Int × Buf) :=
  if cSize ≤ 0 ∨ aLen < 0 ∨ bLen < 0 then some (-1, c)
  else if cSize < header then some (-1, c)
  else do
    let mode := g
    let c := writeBytes c 0 [UInt8.ofInt mode]
    let c := writeIntLe c 1 aLen
    let c := writeIntLe c 5 bLen
    let (payload, out) ← encodePayload mode (c.from 9) (cSize - header) a aLen b bLen
    let c := splice c 9 out
    if payload < 0 then some (-1, c)
    else do
      let n ← checkedInt (header + payload)
      some (n, c)

/-! ## Decoders -/

/-- `if (i < real) x[i] = v`. -/
def store (x : Buf) (real : Int) (i : Nat) (v : UInt8) : Buf :=
  if i < real then writeBytes x i [v] else x

/-- The loop of the slotted modes; `bits i` are the two bits decoded from slot `i`. -/
def decodeSlots (slots : Int) (realA realB : Int) (bits : Nat → UInt8 × UInt8)
    (ab : Buf × Buf) : Buf × Buf :=
  (List.range slots.toNat).foldl
    (fun ab i => (store ab.1 realA i (bits i).1, store ab.2 realB i (bits i).2)) ab

def syncBits (p : Buf) (i : Nat) : UInt8 × UInt8 := (toBit (p (2 * i)), toBit (p (2 * i + 1)))

def fdmBits (p : Buf) (i : Nat) : UInt8 × UInt8 := (p i &&& 1, (p i >>> 1) &&& 1)

def cdmBits (p : Buf) (i : Nat) : UInt8 × UInt8 :=
  let chip0 : Int := (p (2 * i)).toNat - 2
  let chip1 : Int := (p (2 * i + 1)).toNat - 2
  let ra := chip0 + chip1
  let rb := chip0 - chip1
  (if ra > 0 then 1 else 0, if rb > 0 then 1 else 0)

/-- The loop of the statistical mode, token by token. -/
def decodeTokens (tokens : Int) (realA realB : Int) (p : Buf) (ab : Buf × Buf) : Buf × Buf :=
  (List.range tokens.toNat).foldl (fun ab t =>
    let src := p (3 * t)
    let idx := (p (3 * t + 1)).toNat ||| (p (3 * t + 2)).toNat <<< 8
    (if src = 0 then store ab.1 realA idx 1 else ab.1,
      if src = 1 then store ab.2 realB idx 1 else ab.2)) ab

/-- `memset(x, 0, size)`. -/
def clear (x : Buf) (size : Int) : Buf := fun j => if j < size then 0 else x j

/-- The decoder of the mode; `none` is its `return -1`, before any write. -/
def decodePayload (mode : Int) (p : Buf) (payloadLen realA realB : Int) (ab : Buf × Buf) :
    Option (Buf × Buf) :=
  if mode = MODE_STAT_TDM then
    if payloadLen % 3 ≠ 0 then none
    else some (decodeTokens (payloadLen / 3) realA realB p ab)
  else if mode = MODE_SYNC_TDM then
    if payloadLen % 2 ≠ 0 then none
    else some (decodeSlots (payloadLen / 2) realA realB (syncBits p) ab)
  else if mode = MODE_FDM then some (decodeSlots payloadLen realA realB (fdmBits p) ab)
  else if mode = MODE_CDM then
    if payloadLen % 2 ≠ 0 then none
    else some (decodeSlots (payloadLen / 2) realA realB (cdmBits p) ab)
  else none

/-- The return value and the buffers `a` and `b` afterwards.  The mode is the one in the stream;
`g_multiplex_mode` is not looked at. -/
def demultiplex (_g : Int) (a : Buf) (aSize : Int) (b : Buf) (bSize : Int) (c : Buf) (cLen : Int) :
    Option (Int × Buf × Buf) :=
  if aSize < 0 ∨ bSize < 0 ∨ cLen < 9 then some (-1, a, b)
  else
    let a := clear a aSize
    let b := clear b bSize
    let mode : Int := (c 0).toNat
    let aLen := readIntLe c 1
    let bLen := readIntLe c 5
    if aLen < 0 ∨ bLen < 0 then some (-1, a, b)
    else
      let realA := min aSize aLen
      let realB := min bSize bLen
      match decodePayload mode (c.from 9) (cLen - 9) realA realB (a, b) with
      | none => some (-1, a, b)
      | some ab => do
        let n ← checkedInt (realA + realB)
        some (n, ab)

end CampusNet.Multiplex
