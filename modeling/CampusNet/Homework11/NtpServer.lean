import CampusNet.Lib.PyStruct
import Mathlib.Algebra.Field.Rat

/-!
# NTP server

The server's clock is the time of the command line, a `DateTime`; a request is answered with a
packet built from format strings.

* `parseNtpRequest`, `buildNtpReply` — the request decoder and the reply encoder.
* `handle` — one round of the loop in `main`; `receive` — its effect on the server.
* `ntpReply_never` — the reply header packs four values into six items, so no request is ever
  answered.
* `run_receive` — the server waits until the first request and ends there.
-/

namespace CampusNet.Ntp

open PyStruct

/-! ## Time -/

def isLeap (year : Nat) : Bool := year % 4 == 0 && (year % 100 != 0 || year % 400 == 0)

def daysInMonth (year : Nat) : Nat → Nat
  | 2 => if isLeap year then 29 else 28
  | 4 | 6 | 9 | 11 => 30
  | _ => 31

/-- What `datetime.strptime` returns. -/
structure DateTime where
  year : Nat
  month : Nat
  day : Nat
  hour : Nat
  minute : Nat
  second : Nat
  year_valid : 1 ≤ year ∧ year ≤ 9999 := by decide
  month_valid : 1 ≤ month ∧ month ≤ 12 := by decide
  day_valid : 1 ≤ day ∧ day ≤ daysInMonth year month := by decide
  hour_valid : hour < 24 := by decide
  minute_valid : minute < 60 := by decide
  second_valid : second < 60 := by decide

def daysBeforeYear (year : Nat) : Nat :=
  (year - 1) * 365 + (year - 1) / 4 - (year - 1) / 100 + (year - 1) / 400

/-- Days since the first of January of year 1, that day being 1. -/
def DateTime.toordinal (t : DateTime) : Nat :=
  daysBeforeYear t.year +
    ((List.range' 1 (t.month - 1)).map (daysInMonth t.year)).sum + t.day

def DateTime.seconds (t : DateTime) : Int :=
  ((t.toordinal * 24 + t.hour) * 60 + t.minute) * 60 + t.second

/-- `(t - u).total_seconds()` -/
def totalSeconds (t u : DateTime) : Rat := ((t.seconds - u.seconds : Int) : Rat)

/-- `int(x)` rounds towards zero. -/
def pyInt (x : Rat) : Int := x.num.tdiv x.den

def NTP_VERSION : Nat := 3
def NTP_LEAP_INDICATOR : Nat := 0
def NTP_MODE_SERVER : Nat := 4

def NTP_EPOCH : DateTime where
  year := 1900
  month := 1
  day := 1
  hour := 0
  minute := 0
  second := 0

def UNIX_EPOCH : DateTime where
  year := 1970
  month := 1
  day := 1
  hour := 0
  minute := 0
  second := 0

def NTP_DELTA : Rat := totalSeconds UNIX_EPOCH NTP_EPOCH

/-- `ntp_ts` in `main` -/
def ntpTs (server_dt : DateTime) : Rat := totalSeconds server_dt UNIX_EPOCH + NTP_DELTA

/-! ## Packets -/

def requestFormat : Text := "!BBBBBBBBBBBBBBBBIIIIIIIIIIIIIIIIII".toList

/-- `none` for a datagram of under 48 bytes. -/
def parseNtpRequest (data : List UInt8) : Except StructError (Option (List Int)) :=
  if data.length < 48 then .ok none
  else (unpack requestFormat (data.take 48)).map some

/-- `b"LOOC"` -/
def LOOC : List UInt8 := [0x4C, 0x4F, 0x4F, 0x43]

def fraction (x : Rat) : Int := pyInt ((x - pyInt x) * 0x100000000)

def buildNtpReply (txTime serverTime : Rat) : Except StructError (List UInt8) := do
  let sec := pyInt serverTime
  let usec := fraction serverTime
  let liVnMode : Nat := (NTP_LEAP_INDICATOR <<< 6) ||| (NTP_VERSION <<< 3) ||| NTP_MODE_SERVER
  let stratum := 2
  let poll := 4
  let precision := 0xFA
  let rootDelay := 0x10000
  let rootDispersion := 0x10000
  let refId ← unpack "!I".toList LOOC
  let refTs ← pack "!II".toList [sec, usec]
  let origTs ← pack "!II".toList [pyInt txTime, fraction txTime]
  let recvTs ← pack "!II".toList [sec, usec]
  let transTs ← pack "!II".toList [sec, usec]
  let header ← pack "!BBBBBB".toList [liVnMode, stratum, poll, precision]
  let root ← pack "!HI".toList [rootDelay, rootDispersion]
  let ref ← pack "!I".toList [refId.headD 0]
  return header ++ root ++ ref ++ (refTs ++ origTs ++ recvTs ++ transTs)

/-! ## The loop of `main` -/

/-- `tx_ts`, zero when it cannot be read. -/
def txTs (data : List UInt8) : Int :=
  match unpack "!I".toList ((data.drop 40).take 4) with
  | .ok values => values.headD 0
  | .error _ => 0

/-- One datagram: the reply to send, if any. `recvfrom(1024)` drops what is longer. -/
def handle (server_dt : DateTime) (datagram : List UInt8) :
    Except StructError (Option (List UInt8)) :=
  let data := datagram.take 1024
  if 48 ≤ data.length then (buildNtpReply (txTs data) (ntpTs server_dt)).map some
  else .ok none

/-- The replies sent, and the exception that ended the loop. -/
structure Server where
  sent : List (List UInt8)
  raised : Option StructError
  deriving DecidableEq, Repr

def start : Server := ⟨[], none⟩

/-- `main` catches `OSError` only. -/
def receive (server_dt : DateTime) (s : Server) (datagram : List UInt8) : Server :=
  match s.raised with
  | some _ => s
  | none =>
    match handle server_dt datagram with
    | .error e => { s with raised := some e }
    | .ok none => s
    | .ok (some reply) => { s with sent := s.sent ++ [reply] }

/-! ## What a reply should be -/

/-- The server's clock. -/
def secondsSince1900 (t : DateTime) : Int := t.seconds - NTP_EPOCH.seconds

/-- The seconds of the timestamp at byte `pos`. -/
def timestampSeconds (packet : List UInt8) (pos : Nat) : Int := ofBytes ((packet.drop pos).take 4)

structure CorrectReply (t : DateTime) (datagram reply : List UInt8) : Prop where
  length : reply.length = 48
  mode : (reply.headD 0).toNat % 8 = 4
  originate : (reply.drop 24).take 8 = (datagram.drop 40).take 8
  reference : timestampSeconds reply 16 = secondsSince1900 t % 2 ^ 32
  receive : timestampSeconds reply 32 = secondsSince1900 t % 2 ^ 32
  transmit : timestampSeconds reply 40 = secondsSince1900 t % 2 ^ 32

/-- What ends the loop, for a clock of `sec` seconds. -/
def replyError (sec : Int) : StructError :=
  if Code.I.InRange sec then .itemCount 6 4 else .range .I

/-- The request is parsed, and the loop answers it with a correct reply. -/
def Answers (t : DateTime) (datagram : List UInt8) : Prop :=
  (∃ header, parseNtpRequest datagram = .ok (some header)) ∧
  ∃ reply, handle t datagram = .ok (some reply) ∧ CorrectReply t datagram reply

/-! ## Whole seconds -/

@[simp] theorem pyInt_intCast (n : Int) : pyInt (n : Rat) = n := by
  unfold pyInt
  rw [Rat.num_intCast, Rat.den_intCast]
  exact Int.tdiv_one n

@[simp] theorem fraction_intCast (n : Int) : fraction (n : Rat) = 0 := by
  unfold fraction
  rw [pyInt_intCast, Rat.sub_self, Rat.zero_mul]
  rfl

/-- The two conversions cancel the epoch of `datetime`. -/
theorem ntpTs_eq (t : DateTime) : ntpTs t = (secondsSince1900 t : Rat) := by
  unfold ntpTs NTP_DELTA totalSeconds
  rw [← Rat.intCast_add]
  exact congrArg _ (sub_add_sub_cancel t.seconds UNIX_EPOCH.seconds NTP_EPOCH.seconds)

example : secondsSince1900 UNIX_EPOCH = 2208988800 := by decide

/-! ## Requests -/

theorem requestFormat_codes : parseFormat requestFormat =
    some (List.replicate 16 Code.B ++ List.replicate 18 Code.I) := rfl

/-- The format describes 88 bytes, a request's first 48 never fit. -/
theorem parseNtpRequest_eq {data : List UInt8} (h : 48 ≤ data.length) :
    parseNtpRequest data = .error (.bufferSize 88) := by
  have htake : (data.take 48).length ≠
      calcsize (List.replicate 16 Code.B ++ List.replicate 18 Code.I) := by
    rw [List.length_take, Nat.min_eq_left h]
    decide
  unfold parseNtpRequest
  rw [if_neg (by omega), unpack_bufferSize requestFormat_codes htake]
  rfl

theorem txTs_inRange {data : List UInt8} (h : 48 ≤ data.length) : Code.I.InRange (txTs data) := by
  have hlength : ((data.drop 40).take 4).length = Code.I.size := by
    rw [List.length_take, List.length_drop]
    exact Nat.min_eq_left (by omega)
  unfold txTs
  rw [unpack_single rfl hlength]
  exact inRange_ofBytes hlength

/-! ## Replies -/

theorem pairFormat_codes : parseFormat "!II".toList = some [.I, .I] := rfl

theorem headerFormat_codes :
    parseFormat "!BBBBBB".toList = some (List.replicate 6 Code.B) := rfl

/-- Two words are packed when the first fits; the fractions here are zero. -/
theorem packPair_of_inRange {v : Int} (h : Code.I.InRange v) :
    ∃ bytes, pack "!II".toList [v, 0] = .ok bytes := by
  have hrange : List.Forall₂ Code.InRange [.I, .I] [v, 0] := .cons h (.cons (by decide) .nil)
  exact pack_of_inRange pairFormat_codes hrange

theorem packPair_range {v : Int} (h : ¬Code.I.InRange v) :
    pack "!II".toList [v, 0] = .error (.range .I) :=
  pack_range pairFormat_codes rfl h

/-- **No reply is ever built**: either the clock does not fit a word, or the header has too few
values. -/
theorem buildNtpReply_eq {tx sec : Int} (htx : Code.I.InRange tx) :
    buildNtpReply tx sec = .error (replyError sec) := by
  have hheader (v : Int) : pack "!BBBBBB".toList [v, 2, 4, 0xFA] = .error (.itemCount 6 4) :=
    pack_itemCount headerFormat_codes (show 6 ≠ 4 by decide)
  have hrefId : unpack "!I".toList LOOC = .ok [(ofBytes LOOC : Int)] := unpack_single rfl rfl
  obtain ⟨orig, horig⟩ := packPair_of_inRange htx
  unfold buildNtpReply replyError
  simp only [pyInt_intCast, fraction_intCast, hrefId, horig, hheader]
  split
  · rename_i hsec
    obtain ⟨ref, href⟩ := packPair_of_inRange hsec
    rw [href]
    rfl
  · rename_i hsec
    rw [packPair_range hsec]
    rfl

theorem handle_eq (t : DateTime) {datagram : List UInt8} (h : 48 ≤ datagram.length) :
    handle t datagram = .error (replyError (secondsSince1900 t)) := by
  have hlength : 48 ≤ (datagram.take 1024).length := by
    rw [List.length_take]
    omega
  unfold handle
  rw [if_pos hlength, ntpTs_eq, buildNtpReply_eq (txTs_inRange hlength)]
  rfl

theorem handle_short (t : DateTime) {datagram : List UInt8} (h : datagram.length < 48) :
    handle t datagram = .ok none := by
  unfold handle
  rw [if_neg]
  rw [List.length_take]
  omega

theorem not_answers (t : DateTime) {datagram : List UInt8} (h : 48 ≤ datagram.length) :
    ¬Answers t datagram := by
  rintro ⟨⟨header, hheader⟩, -⟩
  rw [parseNtpRequest_eq h] at hheader
  cases hheader

/-- **No request is answered**, whatever it contains and whatever the server's time: the decoder
raises, and so does the loop. -/
theorem ntpReply_never (t : DateTime) (datagram : List UInt8) (h : 48 ≤ datagram.length) :
    parseNtpRequest datagram = .error (.bufferSize 88) ∧
    handle t datagram = .error (replyError (secondsSince1900 t)) ∧ ¬Answers t datagram := by
  have hparse := parseNtpRequest_eq h
  have hhandle := handle_eq t h
  exact ⟨hparse, hhandle, not_answers t h⟩

/-- The time of the usage line. -/
def usageTime : DateTime where
  year := 2019
  month := 5
  day := 1
  hour := 10
  minute := 41
  second := 0

/-- A client's request: version 3, mode 3, and no timestamps. -/
def plainRequest : List UInt8 := 0x1B :: List.replicate 47 0

theorem ntpReply_never_plain : 48 ≤ plainRequest.length ∧
    parseNtpRequest plainRequest = .error (.bufferSize 88) ∧
    handle usageTime plainRequest = .error (replyError (secondsSince1900 usageTime)) ∧
    ¬Answers usageTime plainRequest :=
  ⟨by decide, ntpReply_never usageTime plainRequest (by decide)⟩

/-- The header's item count ends the server at the request. -/
theorem plainRequest_raises : 48 ≤ plainRequest.length ∧
    handle usageTime plainRequest = .error (.itemCount 6 4) ∧ ¬Answers usageTime plainRequest := by
  have hlength : 48 ≤ plainRequest.length := by decide
  have herror : replyError (secondsSince1900 usageTime) = .itemCount 6 4 := by decide
  refine ⟨hlength, ?_, not_answers usageTime hlength⟩
  rw [handle_eq usageTime hlength, herror]

/-! ## Runs of the server -/

theorem receive_short (t : DateTime) {s : Server} {datagram : List UInt8}
    (h : datagram.length < 48) : receive t s datagram = s := by
  unfold receive
  rw [handle_short t h]
  cases s.raised <;> rfl

theorem receive_raised (t : DateTime) {s : Server} {e : StructError} (h : s.raised = some e)
    (datagram : List UInt8) : receive t s datagram = s := by
  unfold receive
  rw [h]

theorem receive_request (t : DateTime) {s : Server} {datagram : List UInt8}
    (hs : s.raised = none) (h : 48 ≤ datagram.length) :
    receive t s datagram = { s with raised := some (replyError (secondsSince1900 t)) } := by
  unfold receive
  rw [hs, handle_eq t h]

theorem foldl_receive_raised (t : DateTime) {s : Server} {e : StructError}
    (h : s.raised = some e) (datagrams : List (List UInt8)) :
    datagrams.foldl (receive t) s = s := by
  induction datagrams with
  | nil => rfl
  | cons d datagrams ih => rw [List.foldl_cons, receive_raised t h, ih]

/-- **A run of the server**: it waits for the first request and ends there, with nothing sent. -/
theorem run_receive (t : DateTime) (datagrams : List (List UInt8)) :
    datagrams.foldl (receive t) start =
      ⟨[], if datagrams.any (48 ≤ ·.length) then some (replyError (secondsSince1900 t))
        else none⟩ := by
  induction datagrams with
  | nil => rfl
  | cons d datagrams ih =>
    rw [List.foldl_cons, List.any_cons]
    by_cases hd : 48 ≤ d.length
    · rw [receive_request t rfl hd, foldl_receive_raised t rfl]
      simp [hd, start]
    · rw [receive_short t (by omega), ih]
      simp [hd]

end CampusNet.Ntp
