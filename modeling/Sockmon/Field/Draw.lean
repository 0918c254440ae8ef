import Sockmon.Field.Sort

set_option autoImplicit false

/-! # The text of a cell

The `dr_*` functions. Each makes one call of `nm_mvwprintw` at the place it is given, so it is
modelled by the text it prints there.
-/

namespace Sockmon

/-- `%*s` -/
def padLeft (width : Nat) (s : List UInt8) : List UInt8 :=
  List.replicate (width - s.length) 32 ++ s

/-- `%-*s` -/
def padRight (width : Nat) (s : List UInt8) : List UInt8 :=
  s ++ List.replicate (width - s.length) 32

/-- `%*u` -/
def padNum (width v : Nat) : List UInt8 := padLeft width (digits v)

/-- `%*d` of the two's complement word `v` of `w` bits. -/
def padInt (width w v : Nat) : List UInt8 :=
  padLeft width (if v < 2 ^ (w - 1) then digits v else 45 :: digits (2 ^ w - v))

def trueFalse (b : Bool) : List UInt8 := bytes (if b then "true" else "false")

def drCommon (f : FieldInfo) (p : Ptr) : List UInt8 :=
  match f.type with
  | .s8 => padInt f.width 8 (rdU8 p)
  | .u8 => padNum f.width (rdU8 p)
  | .s16 => padInt f.width 16 (rdU16 p)
  | .u16 => padNum f.width (rdU16 p)
  | .s32 => padInt f.width 32 (rdU32 p)
  | .u32 => padNum f.width (rdU32 p)
  | .s64 => padInt f.width 64 (rdU64 p)
  | .u64 => padNum f.width (rdU64 p)
  | .string => padLeft f.width (cstr p (sizeofConnInfo - f.offset))
  | .boolU8 => padLeft f.width (trueFalse (rdU16 p % 256 != 0))
  | .boolU16 => padLeft f.width (trueFalse (rdU16 p != 0))
  | .boolU32 => padLeft f.width (trueFalse (rdU32 p != 0))
  | .bitU8 nr =>
      padLeft f.width (if 7 < nr then bytes "?" else trueFalse (rdBits p nr 1 != 0))
  | _ => padLeft f.width []

/-- The half of a packed address width that belongs to the family. -/
def addrWidth (family width : Nat) : Nat :=
  (if family = AF_INET then width / 256 else width) % 256

def drAddr (width family : Nat) (addr : Ptr) : List UInt8 :=
  let buf := (inetNtop family (addr.take 16)).getD (bytes "?")
  padLeft (addrWidth family width) buf

def drSrc (f : FieldInfo) (p : Ptr) : List UInt8 :=
  drAddr f.width (rdU8 (p.add ofInetDiagMsg.idiagFamily))
    (p.add (ofInetDiagMsg.id + ofInetDiagSockid.idiagSrc))

def drDst (f : FieldInfo) (p : Ptr) : List UInt8 :=
  drAddr f.width (rdU8 (p.add ofInetDiagMsg.idiagFamily))
    (p.add (ofInetDiagMsg.id + ofInetDiagSockid.idiagDst))

def drPort (f : FieldInfo) (p : Ptr) : List UInt8 := padNum f.width (rdBe16 p)

/-! ## Labels -/

def stateStr : List String :=
  ["?", "ESTABLISHED", "SYN_SENT", "SYN_RECV", "FIN_WAIT1", "FIN_WAIT2", "TIME_WAIT", "CLOSE",
    "CLOSE_WAIT", "LAST_ACK", "LISTEN", "CLOSING"]

def timerStr : List String := ["Off", "On", "Keepalive", "Timewait", "Probe0", "Delack"]

def caStateStr : List String := ["Open", "Disorder", "CWR", "Recover", "Loss"]

def fastopenClientFailStr : List String :=
  ["status_unspec", "cookie_unavailable", "data_not_acked", "syn_retransmitted"]

def ecnModeStr : List String := ["disabled", "rfc3168", "accenc", "pending"]

def accecnOptSeenStr : List String := ["not_seen", "empty_seen", "counter_seen", "fail_seen"]

/-- The label of `i`, or `"?"` past the end of the table. -/
def label (str : List String) (i : Nat) : List UInt8 := bytes (str.getD i "?")

def drState (f : FieldInfo) (p : Ptr) : List UInt8 := padLeft f.width (label stateStr (rdU8 p))

def drTimer (f : FieldInfo) (p : Ptr) : List UInt8 := padLeft f.width (label timerStr (rdU8 p))

def drCaState (f : FieldInfo) (p : Ptr) : List UInt8 :=
  padLeft f.width (label caStateStr (rdU8 p))

def RCV_SHUTDOWN : Nat := 1
def SEND_SHUTDOWN : Nat := 2

def drShutdown (f : FieldInfo) (p : Ptr) : List UInt8 :=
  let shutdown := rdBits p 0 2
  padLeft f.width (bytes (
    if shutdown = SEND_SHUTDOWN + RCV_SHUTDOWN then "RDWR"
    else if shutdown = SEND_SHUTDOWN then "  WR"
    else if shutdown = RCV_SHUTDOWN then "RD  "
    else "    "))

/-- The flags of `tcpi_options`, lowest bit first, with the text of each. -/
def optionTexts : List String := ["TS", "SACK", "WS", "ECN", "ESEEN", "SYND", "UTS", "TFOC"]

def drOptions (_ : FieldInfo) (p : Ptr) : List UInt8 :=
  [32].intercalate (optionTexts.mapIdx fun i s =>
    if rdBits p i 1 = 1 then bytes s else List.replicate s.length 32)

/-! ## Bit-fields -/

def drSndWscale (f : FieldInfo) (p : Ptr) : List UInt8 := padNum f.width (rdBits p 0 4)
def drRcvWscale (f : FieldInfo) (p : Ptr) : List UInt8 := padNum f.width (rdBits p 4 4)

/-- A single bit drawn as a truth value. -/
def drBit (lo : Nat) (f : FieldInfo) (p : Ptr) : List UInt8 :=
  padLeft f.width (trueFalse (rdBits p lo 1 != 0))

def drDeliveryRateAppLimited := drBit 0
def drBindAddressNoPort := drBit 0
def drRecverrRfc4884 := drBit 1
def drDeferConnect := drBit 2

def drFastopenClientFail (f : FieldInfo) (p : Ptr) : List UInt8 :=
  padLeft f.width (label fastopenClientFailStr (rdBits p 1 2))

def drEcnMode (f : FieldInfo) (p : Ptr) : List UInt8 :=
  padLeft f.width (label ecnModeStr (rdBits p 0 2))

def drAccecnOptSeen (f : FieldInfo) (p : Ptr) : List UInt8 :=
  padLeft f.width (label accecnOptSeenStr (rdBits p 2 2))

def drAccecnFailMode (f : FieldInfo) (p : Ptr) : List UInt8 :=
  padLeft f.width (hexDigits (rdBits p 4 4))

def drBbrBw (f : FieldInfo) (p : Ptr) : List UInt8 := padNum f.width (bbrBw p)

/-- The text that the function `draw_row` points at prints. -/
def DrawRow.text : DrawRow → FieldInfo → Ptr → List UInt8
  | .drCommon => Sockmon.drCommon
  | .drSrc => Sockmon.drSrc
  | .drDst => Sockmon.drDst
  | .drPort => Sockmon.drPort
  | .drState => Sockmon.drState
  | .drTimer => Sockmon.drTimer
  | .drShutdown => Sockmon.drShutdown
  | .drCaState => Sockmon.drCaState
  | .drOptions => Sockmon.drOptions
  | .drSndWscale => Sockmon.drSndWscale
  | .drRcvWscale => Sockmon.drRcvWscale
  | .drDeliveryRateAppLimited => Sockmon.drDeliveryRateAppLimited
  | .drFastopenClientFail => Sockmon.drFastopenClientFail
  | .drEcnMode => Sockmon.drEcnMode
  | .drAccecnOptSeen => Sockmon.drAccecnOptSeen
  | .drAccecnFailMode => Sockmon.drAccecnFailMode
  | .drBbrBw => Sockmon.drBbrBw
  | .drBindAddressNoPort => Sockmon.drBindAddressNoPort
  | .drRecverrRfc4884 => Sockmon.drRecverrRfc4884
  | .drDeferConnect => Sockmon.drDeferConnect

end Sockmon
