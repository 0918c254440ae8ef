import Sockmon.Basic.CInt

set_option autoImplicit false

/-! # `struct conn_info`

A connection is the memory image of its `struct conn_info`, since the field table draws, sorts
and filters through offsets into it. The layout is the one of x86-64 with the uapi headers the
table is written for (`struct tcp_info` up to the AccECN counters). The member `ext` is never
addressed by offset and is kept apart from the image; the list node is the list itself.
-/

namespace Sockmon

/-! ## Extensions -/

def INET_DIAG_NONE : Nat := 0
def INET_DIAG_MEMINFO : Nat := 1
def INET_DIAG_INFO : Nat := 2
def INET_DIAG_VEGASINFO : Nat := 3
def INET_DIAG_CONG : Nat := 4
def INET_DIAG_TOS : Nat := 5
def INET_DIAG_TCLASS : Nat := 6
def INET_DIAG_SKMEMINFO : Nat := 7
def INET_DIAG_SHUTDOWN : Nat := 8
def INET_DIAG_DCTCPINFO : Nat := 9
def INET_DIAG_SKV6ONLY : Nat := 11
def INET_DIAG_BBRINFO : Nat := 16
def INET_DIAG_CLASS_ID : Nat := 17
def INET_DIAG_CGROUP_ID : Nat := 21
def INET_DIAG_SOCKOPT : Nat := 22
/-- `__INET_DIAG_MAX` -/
def INET_DIAG_MAX : Nat := 23
def INET_DIAG_ADDRESS : Nat := INET_DIAG_MAX + 0
def INET_DIAG_PROC : Nat := INET_DIAG_MAX + 1

/-! ## Layout -/

namespace ofConnInfo
def tos : Nat := 16
def tclass : Nat := 17
def shutdown : Nat := 18
def ipv6only : Nat := 19
def classid : Nat := 20
def r : Nat := 24
def minfo : Nat := 96
def info : Nat := 112
def ccInfo : Nat := 392
def caName : Nat := 412
def mem : Nat := 432
def cgroupId : Nat := 472
def inetSockopt : Nat := 480
def pid : Nat := 484
def comm : Nat := 488
end ofConnInfo

/-- `sizeof(struct conn_info)` -/
def sizeofConnInfo : Nat := 504

namespace ofInetDiagMsg
def idiagFamily : Nat := 0
def idiagState : Nat := 1
def idiagTimer : Nat := 2
def idiagRetrans : Nat := 3
def id : Nat := 4
def idiagExpires : Nat := 52
def idiagRqueue : Nat := 56
def idiagWqueue : Nat := 60
def idiagUid : Nat := 64
def idiagInode : Nat := 68
end ofInetDiagMsg

/-- `sizeof(struct inet_diag_msg)` -/
def sizeofInetDiagMsg : Nat := 72

namespace ofInetDiagSockid
def idiagSport : Nat := 0
def idiagDport : Nat := 2
def idiagSrc : Nat := 4
def idiagDst : Nat := 20
def idiagIf : Nat := 36
end ofInetDiagSockid

namespace ofInetDiagMeminfo
def idiagRmem : Nat := 0
def idiagWmem : Nat := 4
def idiagFmem : Nat := 8
def idiagTmem : Nat := 12
end ofInetDiagMeminfo

namespace ofTcpInfo
def tcpiState : Nat := 0
def tcpiCaState : Nat := 1
def tcpiRetransmits : Nat := 2
def tcpiProbes : Nat := 3
def tcpiBackoff : Nat := 4
def tcpiOptions : Nat := 5
def tcpiRto : Nat := 8
def tcpiAto : Nat := 12
def tcpiSndMss : Nat := 16
def tcpiRcvMss : Nat := 20
def tcpiUnacked : Nat := 24
def tcpiSacked : Nat := 28
def tcpiLost : Nat := 32
def tcpiRetrans : Nat := 36
def tcpiFackets : Nat := 40
def tcpiLastDataSent : Nat := 44
def tcpiLastAckSent : Nat := 48
def tcpiLastDataRecv : Nat := 52
def tcpiLastAckRecv : Nat := 56
def tcpiPmtu : Nat := 60
def tcpiRcvSsthresh : Nat := 64
def tcpiRtt : Nat := 68
def tcpiRttvar : Nat := 72
def tcpiSndSsthresh : Nat := 76
def tcpiSndCwnd : Nat := 80
def tcpiAdvmss : Nat := 84
def tcpiReordering : Nat := 88
def tcpiRcvRtt : Nat := 92
def tcpiRcvSpace : Nat := 96
def tcpiTotalRetrans : Nat := 100
def tcpiPacingRate : Nat := 104
def tcpiMaxPacingRate : Nat := 112
def tcpiBytesAcked : Nat := 120
def tcpiBytesReceived : Nat := 128
def tcpiSegsOut : Nat := 136
def tcpiSegsIn : Nat := 140
def tcpiNotsentBytes : Nat := 144
def tcpiMinRtt : Nat := 148
def tcpiDataSegsIn : Nat := 152
def tcpiDataSegsOut : Nat := 156
def tcpiDeliveryRate : Nat := 160
def tcpiBusyTime : Nat := 168
def tcpiRwndLimited : Nat := 176
def tcpiSndbufLimited : Nat := 184
def tcpiDelivered : Nat := 192
def tcpiDeliveredCe : Nat := 196
def tcpiBytesSent : Nat := 200
def tcpiBytesRetrans : Nat := 208
def tcpiDsackDups : Nat := 216
def tcpiReordSeen : Nat := 220
def tcpiRcvOoopack : Nat := 224
def tcpiSndWnd : Nat := 228
def tcpiRcvWnd : Nat := 232
def tcpiRehash : Nat := 236
def tcpiTotalRto : Nat := 240
def tcpiTotalRtoRecoveries : Nat := 242
def tcpiTotalRtoTime : Nat := 244
def tcpiReceivedCe : Nat := 248
def tcpiDeliveredE1Bytes : Nat := 252
def tcpiDeliveredE0Bytes : Nat := 256
def tcpiDeliveredCeBytes : Nat := 260
def tcpiReceivedE1Bytes : Nat := 264
def tcpiReceivedE0Bytes : Nat := 268
def tcpiReceivedCeBytes : Nat := 272
end ofTcpInfo

namespace ofTcpvegasInfo
def tcpvEnabled : Nat := 0
def tcpvRttcnt : Nat := 4
def tcpvRtt : Nat := 8
def tcpvMinrtt : Nat := 12
end ofTcpvegasInfo

namespace ofTcpDctcpInfo
def dctcpEnabled : Nat := 0
def dctcpCeState : Nat := 2
def dctcpAlpha : Nat := 4
def dctcpAbEcn : Nat := 8
def dctcpAbTot : Nat := 12
end ofTcpDctcpInfo

namespace ofTcpBbrInfo
def bbrBwLo : Nat := 0
def bbrMinRtt : Nat := 8
def bbrPacingGain : Nat := 12
def bbrCwndGain : Nat := 16
end ofTcpBbrInfo

def SK_MEMINFO_RMEM_ALLOC : Nat := 0
def SK_MEMINFO_RCVBUF : Nat := 1
def SK_MEMINFO_WMEM_ALLOC : Nat := 2
def SK_MEMINFO_SNDBUF : Nat := 3
def SK_MEMINFO_FWD_ALLOC : Nat := 4
def SK_MEMINFO_WMEM_QUEUED : Nat := 5
def SK_MEMINFO_OPTMEM : Nat := 6
def SK_MEMINFO_BACKLOG : Nat := 7
def SK_MEMINFO_DROPS : Nat := 8

/-! ## The structure -/

structure ConnInfo where
  img : Ptr
  ext : BitVec 32

namespace ConnInfo

/-- `conn_info_alloc`: all bytes zero. -/
def zero : ConnInfo := ⟨fun _ => 0, 0⟩

/-- Copy `n` bytes from `src` to offset `off`. -/
def write (ci : ConnInfo) (off n : Nat) (src : Ptr) : ConnInfo :=
  { ci with img := fun i => if off ≤ i ∧ i < off + n then src (i - off) else ci.img i }

/-- `(char *)ci + offset` -/
def ptr (ci : ConnInfo) (offset : Nat) : Ptr := Ptr.add ci.img offset

/-- `ci->r.idiag_family` -/
def family (ci : ConnInfo) : Nat := rdU8 (ci.ptr (ofConnInfo.r + ofInetDiagMsg.idiagFamily))

end ConnInfo

end Sockmon
