import Sockmon.Field.Types

set_option autoImplicit false

/-! # The field table

`tcp_fields` as it stands at the start of the program.
-/

namespace Sockmon

/-- `DEFINE_FIELD2` -/
def defineField2 (header desc : String) (enabled : Bool) (extReq extRcv width : Nat)
    (type : FieldType) (offset : Nat) (drawRow : DrawRow) (sortFunc : SortFunc)
    (filterParse : FilterParse) (filterApply : FilterApply) : Field :=
  { header, desc, extReq, extRcv, width, type, offset, drawRow, sortFunc, filterParse,
    filterApply, enabled, pinned := false, filterOn := false, filter := none }

/-- `DEFINE_FIELD` -/
def defineField (header desc : String) (enabled : Bool) (ext width : Nat) (type : FieldType)
    (offset : Nat) (drawRow : DrawRow) (sortFunc : SortFunc) (filterParse : FilterParse)
    (filterApply : FilterApply) : Field :=
  defineField2 header desc enabled ext ext width type offset drawRow sortFunc filterParse
    filterApply

/-- `DEFINE_FIELD` of a section heading: no functions. -/
def heading (header : String) (ext : Nat) : Field :=
  { header, desc := "", extReq := ext, extRcv := ext, width := 0, type := .other, offset := 0,
    drawRow := none, sortFunc := none, filterParse := none, filterApply := none,
    enabled := false, pinned := false, filterOn := false, filter := none }

/-- `DEFINE_FIELD2` of a field with the four common functions, not enabled. -/
def common2 (header : String) (extReq extRcv width : Nat) (type : FieldType) (offset : Nat) :
    Field :=
  defineField2 header "" false extReq extRcv width type offset .drCommon .sortCommon .fpCommon
    .faCommon

/-- `DEFINE_FIELD` of a field with the four common functions, not enabled. -/
def common (header : String) (ext width : Nat) (type : FieldType) (offset : Nat) : Field :=
  common2 header ext ext width type offset

def tcpFields : List Field := [
  heading "inet_diag:" INET_DIAG_NONE,
  defineField2 "src" "Local IP address" true INET_DIAG_NONE INET_DIAG_ADDRESS (15 * 256 + 45)
    .address ofConnInfo.r
    .drSrc .sortSrc .fpAddr .faSrc,
  defineField "sport" "Local Port" true INET_DIAG_NONE 5 .u16Port
    (ofConnInfo.r + ofInetDiagMsg.id + ofInetDiagSockid.idiagSport)
    .drPort .sortPort .fpCommon .faCommon,
  defineField2 "dst" "Remote IP address" true INET_DIAG_NONE INET_DIAG_ADDRESS (15 * 256 + 45)
    .address ofConnInfo.r
    .drDst .sortDst .fpAddr .faDst,
  defineField "dport" "Remote Port" true INET_DIAG_NONE 5 .u16Port
    (ofConnInfo.r + ofInetDiagMsg.id + ofInetDiagSockid.idiagDport)
    .drPort .sortPort .fpCommon .faCommon,
  defineField "state" "Connection state" true INET_DIAG_NONE 11 .u8
    (ofConnInfo.r + ofInetDiagMsg.idiagState)
    .drState .sortCommon .fpState .faStrCommon,
  defineField "rqueue" "" true INET_DIAG_NONE 6 .u32 (ofConnInfo.r + ofInetDiagMsg.idiagRqueue)
    .drCommon .sortCommon .fpCommon .faCommon,
  defineField "wqueue" "" true INET_DIAG_NONE 6 .u32 (ofConnInfo.r + ofInetDiagMsg.idiagWqueue)
    .drCommon .sortCommon .fpCommon .faCommon,
  defineField "timer" "" false INET_DIAG_NONE 9 .u8 (ofConnInfo.r + ofInetDiagMsg.idiagTimer)
    .drTimer .sortCommon .fpTimer .faStrCommon,
  common "retrans" INET_DIAG_NONE 7 .u8 (ofConnInfo.r + ofInetDiagMsg.idiagRetrans),
  common "if" INET_DIAG_NONE 2 .u32
    (ofConnInfo.r + ofInetDiagMsg.id + ofInetDiagSockid.idiagIf),
  common "expires" INET_DIAG_NONE 7 .u32 (ofConnInfo.r + ofInetDiagMsg.idiagExpires),
  common "uid" INET_DIAG_NONE 6 .u32 (ofConnInfo.r + ofInetDiagMsg.idiagUid),
  common "inode" INET_DIAG_NONE 7 .u32 (ofConnInfo.r + ofInetDiagMsg.idiagInode),
  common "pid" INET_DIAG_PROC 8 .u32 ofConnInfo.pid,
  defineField "comm" "" false INET_DIAG_PROC 16 .string ofConnInfo.comm
    .drCommon .sortCommon .fpCommon .faString,
  common "tos" INET_DIAG_TOS 3 .u8 ofConnInfo.tos,
  common "tclass" INET_DIAG_TCLASS 6 .u8 ofConnInfo.tclass,
  defineField "shutdown" "" false INET_DIAG_SHUTDOWN 8 .u8 ofConnInfo.shutdown
    .drShutdown .sortCommon .fpShutdown .faStrCommon,
  defineField "ipv6only" "" false INET_DIAG_SKV6ONLY 8 .boolU8 ofConnInfo.ipv6only
    .drCommon .sortCommon .fpBool .faStrCommon,
  common "classid" INET_DIAG_CLASS_ID 7 .u32 ofConnInfo.classid,
  common "cgroup_id" INET_DIAG_CGROUP_ID 9 .u64 ofConnInfo.cgroupId,
  heading "meminfo:" INET_DIAG_MEMINFO,
  common "rmem" INET_DIAG_MEMINFO 6 .u32 (ofConnInfo.minfo + ofInetDiagMeminfo.idiagRmem),
  common "wmem" INET_DIAG_MEMINFO 6 .u32 (ofConnInfo.minfo + ofInetDiagMeminfo.idiagWmem),
  common "fmem" INET_DIAG_MEMINFO 6 .u32 (ofConnInfo.minfo + ofInetDiagMeminfo.idiagFmem),
  common "tmem" INET_DIAG_MEMINFO 6 .u32 (ofConnInfo.minfo + ofInetDiagMeminfo.idiagTmem),
  heading "tcp_info:" INET_DIAG_INFO,
  defineField "state" "" false INET_DIAG_INFO 11 .u8 (ofConnInfo.info + ofTcpInfo.tcpiState)
    .drState .sortCommon .fpState .faStrCommon,
  defineField "ca_state" "" false INET_DIAG_INFO 8 .u8
    (ofConnInfo.info + ofTcpInfo.tcpiCaState)
    .drCaState .sortCommon .fpCaState .faStrCommon,
  common "retransmits" INET_DIAG_INFO 11 .u8 (ofConnInfo.info + ofTcpInfo.tcpiRetransmits),
  common "probes" INET_DIAG_INFO 6 .u8 (ofConnInfo.info + ofTcpInfo.tcpiProbes),
  common "backoff" INET_DIAG_INFO 7 .u8 (ofConnInfo.info + ofTcpInfo.tcpiBackoff),
  defineField "options" "" false INET_DIAG_INFO 34 .u8
    (ofConnInfo.info + ofTcpInfo.tcpiOptions)
    .drOptions .sortCommon .fpOptions .faOptions,
  defineField "snd_wscale" "" false INET_DIAG_INFO 10 .u8
    (ofConnInfo.info + ofTcpInfo.tcpiOptions + 1)
    .drSndWscale .sortSndWscale .fpCommon .faSndWscale,
  defineField "rcv_wscale" "" false INET_DIAG_INFO 10 .u8
    (ofConnInfo.info + ofTcpInfo.tcpiOptions + 1)
    .drRcvWscale .sortRcvWscale .fpCommon .faRcvWscale,
  defineField "delivery_rate_app_limited" "" false INET_DIAG_INFO 25 .u8
    (ofConnInfo.info + ofTcpInfo.tcpiOptions + 1 + 1)
    .drDeliveryRateAppLimited .sortDeliveryRateAppLimited .fpBool .faDeliveryRateAppLimited,
  defineField "fastopen_client_fail" "" false INET_DIAG_INFO 20 .u8
    (ofConnInfo.info + ofTcpInfo.tcpiOptions + 1 + 1)
    .drFastopenClientFail .sortFastopenClientFail .fpFastopenClientFail .faFastopenClientFail,
  common "rto" INET_DIAG_INFO 8 .u32 (ofConnInfo.info + ofTcpInfo.tcpiRto),
  common "ato" INET_DIAG_INFO 8 .u32 (ofConnInfo.info + ofTcpInfo.tcpiAto),
  common "snd_mss" INET_DIAG_INFO 7 .u32 (ofConnInfo.info + ofTcpInfo.tcpiSndMss),
  common "rcv_mss" INET_DIAG_INFO 7 .u32 (ofConnInfo.info + ofTcpInfo.tcpiRcvMss),
  common "unacked" INET_DIAG_INFO 7 .u32 (ofConnInfo.info + ofTcpInfo.tcpiUnacked),
  common "sacked" INET_DIAG_INFO 6 .u32 (ofConnInfo.info + ofTcpInfo.tcpiSacked),
  common "lost" INET_DIAG_INFO 4 .u32 (ofConnInfo.info + ofTcpInfo.tcpiLost),
  common "retrans" INET_DIAG_INFO 7 .u32 (ofConnInfo.info + ofTcpInfo.tcpiRetrans),
  common "fackets" INET_DIAG_INFO 7 .u32 (ofConnInfo.info + ofTcpInfo.tcpiFackets),
  common "last_data_sent" INET_DIAG_INFO 14 .u32 (ofConnInfo.info + ofTcpInfo.tcpiLastDataSent),
  common "last_ack_sent" INET_DIAG_INFO 13 .u32 (ofConnInfo.info + ofTcpInfo.tcpiLastAckSent),
  common "last_data_recv" INET_DIAG_INFO 14 .u32 (ofConnInfo.info + ofTcpInfo.tcpiLastDataRecv),
  common "last_ack_recv" INET_DIAG_INFO 13 .u32 (ofConnInfo.info + ofTcpInfo.tcpiLastAckRecv),
  common "pmtu" INET_DIAG_INFO 6 .u32 (ofConnInfo.info + ofTcpInfo.tcpiPmtu),
  common "rcv_ssthresh" INET_DIAG_INFO 12 .u32 (ofConnInfo.info + ofTcpInfo.tcpiRcvSsthresh),
  common "rtt" INET_DIAG_INFO 8 .u32 (ofConnInfo.info + ofTcpInfo.tcpiRtt),
  common "rttvar" INET_DIAG_INFO 8 .u32 (ofConnInfo.info + ofTcpInfo.tcpiRttvar),
  common "snd_ssthresh" INET_DIAG_INFO 12 .u32 (ofConnInfo.info + ofTcpInfo.tcpiSndSsthresh),
  common "snd_cwnd" INET_DIAG_INFO 8 .u32 (ofConnInfo.info + ofTcpInfo.tcpiSndCwnd),
  common "advmss" INET_DIAG_INFO 6 .u32 (ofConnInfo.info + ofTcpInfo.tcpiAdvmss),
  common "reordering" INET_DIAG_INFO 10 .u32 (ofConnInfo.info + ofTcpInfo.tcpiReordering),
  common "rcv_rtt" INET_DIAG_INFO 10 .u32 (ofConnInfo.info + ofTcpInfo.tcpiRcvRtt),
  common "rcv_space" INET_DIAG_INFO 9 .u32 (ofConnInfo.info + ofTcpInfo.tcpiRcvSpace),
  common "total_retrans" INET_DIAG_INFO 13 .u32 (ofConnInfo.info + ofTcpInfo.tcpiTotalRetrans),
  common "pacing_rate" INET_DIAG_INFO 11 .u64 (ofConnInfo.info + ofTcpInfo.tcpiPacingRate),
  common "max_pacing_rate" INET_DIAG_INFO 20 .u64
    (ofConnInfo.info + ofTcpInfo.tcpiMaxPacingRate),
  common "bytes_acked" INET_DIAG_INFO 15 .u64 (ofConnInfo.info + ofTcpInfo.tcpiBytesAcked),
  common "bytes_received" INET_DIAG_INFO 15 .u64
    (ofConnInfo.info + ofTcpInfo.tcpiBytesReceived),
  common "segs_out" INET_DIAG_INFO 8 .u32 (ofConnInfo.info + ofTcpInfo.tcpiSegsOut),
  common "segs_in" INET_DIAG_INFO 8 .u32 (ofConnInfo.info + ofTcpInfo.tcpiSegsIn),
  common "notsent_bytes" INET_DIAG_INFO 13 .u32 (ofConnInfo.info + ofTcpInfo.tcpiNotsentBytes),
  common "min_rtt" INET_DIAG_INFO 8 .u32 (ofConnInfo.info + ofTcpInfo.tcpiMinRtt),
  common "data_segs_in" INET_DIAG_INFO 12 .u32 (ofConnInfo.info + ofTcpInfo.tcpiDataSegsIn),
  common "data_segs_out" INET_DIAG_INFO 13 .u32 (ofConnInfo.info + ofTcpInfo.tcpiDataSegsOut),
  common "delivery_rate" INET_DIAG_INFO 13 .u64 (ofConnInfo.info + ofTcpInfo.tcpiDeliveryRate),
  common "busy_time" INET_DIAG_INFO 10 .u64 (ofConnInfo.info + ofTcpInfo.tcpiBusyTime),
  common "rwnd_limited" INET_DIAG_INFO 12 .u64 (ofConnInfo.info + ofTcpInfo.tcpiRwndLimited),
  common "sndbuf_limited" INET_DIAG_INFO 14 .u64
    (ofConnInfo.info + ofTcpInfo.tcpiSndbufLimited),
  common "delivered" INET_DIAG_INFO 9 .u32 (ofConnInfo.info + ofTcpInfo.tcpiDelivered),
  common "delivered_ce" INET_DIAG_INFO 12 .u32 (ofConnInfo.info + ofTcpInfo.tcpiDeliveredCe),
  common "bytes_sent" INET_DIAG_INFO 15 .u64 (ofConnInfo.info + ofTcpInfo.tcpiBytesSent),
  common "bytes_retrans" INET_DIAG_INFO 13 .u64 (ofConnInfo.info + ofTcpInfo.tcpiBytesRetrans),
  common "dsack_dups" INET_DIAG_INFO 10 .u32 (ofConnInfo.info + ofTcpInfo.tcpiDsackDups),
  common "reord_seen" INET_DIAG_INFO 10 .u32 (ofConnInfo.info + ofTcpInfo.tcpiReordSeen),
  common "rcv_ooopack" INET_DIAG_INFO 11 .u32 (ofConnInfo.info + ofTcpInfo.tcpiRcvOoopack),
  common "snd_wnd" INET_DIAG_INFO 10 .u32 (ofConnInfo.info + ofTcpInfo.tcpiSndWnd),
  common "rcv_wnd" INET_DIAG_INFO 10 .u32 (ofConnInfo.info + ofTcpInfo.tcpiRcvWnd),
  common "rehash" INET_DIAG_INFO 6 .u32 (ofConnInfo.info + ofTcpInfo.tcpiRehash),
  common "total_rto" INET_DIAG_INFO 9 .u16 (ofConnInfo.info + ofTcpInfo.tcpiTotalRto),
  common "total_rto_recoveries" INET_DIAG_INFO 20 .u16
    (ofConnInfo.info + ofTcpInfo.tcpiTotalRtoRecoveries),
  common "total_rto_time" INET_DIAG_INFO 14 .u32 (ofConnInfo.info + ofTcpInfo.tcpiTotalRtoTime),
  common "received_ce" INET_DIAG_INFO 11 .u32 (ofConnInfo.info + ofTcpInfo.tcpiReceivedCe),
  common "delivered_e1_bytes" INET_DIAG_INFO 18 .u32
    (ofConnInfo.info + ofTcpInfo.tcpiDeliveredE1Bytes),
  common "delivered_e0_bytes" INET_DIAG_INFO 18 .u32
    (ofConnInfo.info + ofTcpInfo.tcpiDeliveredE0Bytes),
  common "delivered_ce_bytes" INET_DIAG_INFO 18 .u32
    (ofConnInfo.info + ofTcpInfo.tcpiDeliveredCeBytes),
  common "received_e1_bytes" INET_DIAG_INFO 17 .u32
    (ofConnInfo.info + ofTcpInfo.tcpiReceivedE1Bytes),
  common "received_e0_bytes" INET_DIAG_INFO 17 .u32
    (ofConnInfo.info + ofTcpInfo.tcpiReceivedE0Bytes),
  common "received_ce_bytes" INET_DIAG_INFO 17 .u32
    (ofConnInfo.info + ofTcpInfo.tcpiReceivedCeBytes),
  defineField "ecn_mode" "" false INET_DIAG_INFO 8 .u8
    (ofConnInfo.info + ofTcpInfo.tcpiReceivedCeBytes + 4)
    .drEcnMode .sortEcnMode .fpEcnMode .faEcnMode,
  defineField "accecn_opt_seen" "" false INET_DIAG_INFO 15 .u8
    (ofConnInfo.info + ofTcpInfo.tcpiReceivedCeBytes + 4)
    .drAccecnOptSeen .sortAccecnOptSeen .fpAccecnOptSeen .faAccecnOptSeen,
  defineField "accecn_fail_mode" "" false INET_DIAG_INFO 16 .other
    (ofConnInfo.info + ofTcpInfo.tcpiReceivedCeBytes + 4)
    .drAccecnFailMode .sortAccecnFailMode .fpAccecnFailMode .faAccecnFailMode,
  heading "Congestion control:" INET_DIAG_CONG,
  defineField "Module" "" false INET_DIAG_CONG 16 .string ofConnInfo.caName
    .drCommon .sortCommon .fpCommon .faString,
  heading "Vegas info:" INET_DIAG_VEGASINFO,
  defineField "enabled" "" false INET_DIAG_VEGASINFO 7 .boolU32
    (ofConnInfo.ccInfo + ofTcpvegasInfo.tcpvEnabled)
    .drCommon .sortCommon .fpBool .faVegasEnabled,
  common "rttcnt" INET_DIAG_VEGASINFO 6 .u32 (ofConnInfo.ccInfo + ofTcpvegasInfo.tcpvRttcnt),
  common "rtt" INET_DIAG_VEGASINFO 8 .u32 (ofConnInfo.ccInfo + ofTcpvegasInfo.tcpvRtt),
  common "minrtt" INET_DIAG_VEGASINFO 10 .u32 (ofConnInfo.ccInfo + ofTcpvegasInfo.tcpvMinrtt),
  heading "DCTCP info:" INET_DIAG_DCTCPINFO,
  defineField2 "enabled" "" false INET_DIAG_VEGASINFO INET_DIAG_DCTCPINFO 7 .boolU16
    (ofConnInfo.ccInfo + ofTcpDctcpInfo.dctcpEnabled)
    .drCommon .sortCommon .fpBool .faDctcpEnabled,
  common2 "ce_state" INET_DIAG_VEGASINFO INET_DIAG_DCTCPINFO 8 .u16
    (ofConnInfo.ccInfo + ofTcpDctcpInfo.dctcpCeState),
  common2 "alpha" INET_DIAG_VEGASINFO INET_DIAG_DCTCPINFO 5 .u32
    (ofConnInfo.ccInfo + ofTcpDctcpInfo.dctcpAlpha),
  common2 "ab_ecn" INET_DIAG_VEGASINFO INET_DIAG_DCTCPINFO 6 .u32
    (ofConnInfo.ccInfo + ofTcpDctcpInfo.dctcpAbEcn),
  common2 "ab_tot" INET_DIAG_VEGASINFO INET_DIAG_DCTCPINFO 6 .u32
    (ofConnInfo.ccInfo + ofTcpDctcpInfo.dctcpAbTot),
  heading "BBR info:" INET_DIAG_BBRINFO,
  defineField2 "bw" "" false INET_DIAG_VEGASINFO INET_DIAG_BBRINFO 10 .u64
    (ofConnInfo.ccInfo + ofTcpBbrInfo.bbrBwLo)
    .drBbrBw .sortBbrBw .fpCommon .faBbrBw,
  common2 "min_rtt" INET_DIAG_VEGASINFO INET_DIAG_BBRINFO 7 .u32
    (ofConnInfo.ccInfo + ofTcpBbrInfo.bbrMinRtt),
  common2 "pacing_gain" INET_DIAG_VEGASINFO INET_DIAG_BBRINFO 11 .u32
    (ofConnInfo.ccInfo + ofTcpBbrInfo.bbrPacingGain),
  common2 "cwnd_gain" INET_DIAG_VEGASINFO INET_DIAG_BBRINFO 9 .u32
    (ofConnInfo.ccInfo + ofTcpBbrInfo.bbrCwndGain),
  heading "skmeminfo:" INET_DIAG_SKMEMINFO,
  common "rmem_alloc" INET_DIAG_SKMEMINFO 10 .u32 (ofConnInfo.mem + 4 * SK_MEMINFO_RMEM_ALLOC),
  common "rcvbuf" INET_DIAG_SKMEMINFO 8 .u32 (ofConnInfo.mem + 4 * SK_MEMINFO_RCVBUF),
  common "wmem_alloc" INET_DIAG_SKMEMINFO 10 .u32 (ofConnInfo.mem + 4 * SK_MEMINFO_WMEM_ALLOC),
  common "sndbuf" INET_DIAG_SKMEMINFO 8 .u32 (ofConnInfo.mem + 4 * SK_MEMINFO_SNDBUF),
  common "fwd_alloc" INET_DIAG_SKMEMINFO 9 .u32 (ofConnInfo.mem + 4 * SK_MEMINFO_FWD_ALLOC),
  common "wmem_queued" INET_DIAG_SKMEMINFO 11 .u32
    (ofConnInfo.mem + 4 * SK_MEMINFO_WMEM_QUEUED),
  common "optmem" INET_DIAG_SKMEMINFO 6 .u32 (ofConnInfo.mem + 4 * SK_MEMINFO_OPTMEM),
  common "backlog" INET_DIAG_SKMEMINFO 7 .u32 (ofConnInfo.mem + 4 * SK_MEMINFO_BACKLOG),
  common "drops" INET_DIAG_SKMEMINFO 5 .u32 (ofConnInfo.mem + 4 * SK_MEMINFO_DROPS),
  heading "sockopt:" INET_DIAG_SOCKOPT,
  defineField "recverr" "" false INET_DIAG_SOCKOPT 7 (.bitU8 0) (ofConnInfo.inetSockopt + 0)
    .drCommon .sortCommon .fpBool .faStrCommon,
  defineField "is_icsk" "" false INET_DIAG_SOCKOPT 7 (.bitU8 1) (ofConnInfo.inetSockopt + 0)
    .drCommon .sortCommon .fpBool .faStrCommon,
  defineField "freebind" "" false INET_DIAG_SOCKOPT 8 (.bitU8 2) (ofConnInfo.inetSockopt + 0)
    .drCommon .sortCommon .fpBool .faStrCommon,
  defineField "hdrincl" "" false INET_DIAG_SOCKOPT 7 (.bitU8 3) (ofConnInfo.inetSockopt + 0)
    .drCommon .sortCommon .fpBool .faStrCommon,
  defineField "mc_loop" "" false INET_DIAG_SOCKOPT 7 (.bitU8 4) (ofConnInfo.inetSockopt + 0)
    .drCommon .sortCommon .fpBool .faStrCommon,
  defineField "transparent" "" false INET_DIAG_SOCKOPT 11 (.bitU8 5)
    (ofConnInfo.inetSockopt + 0)
    .drCommon .sortCommon .fpBool .faStrCommon,
  defineField "mc_all" "" false INET_DIAG_SOCKOPT 6 (.bitU8 6) (ofConnInfo.inetSockopt + 0)
    .drCommon .sortCommon .fpBool .faStrCommon,
  defineField "nodefrag" "" false INET_DIAG_SOCKOPT 8 (.bitU8 7) (ofConnInfo.inetSockopt + 0)
    .drCommon .sortCommon .fpBool .faStrCommon,
  defineField "bind_address_no_port" "" false INET_DIAG_SOCKOPT 20 .u8
    (ofConnInfo.inetSockopt + 1)
    .drBindAddressNoPort .sortBindAddressNoPort .fpBool .faBindAddressNoPort,
  defineField "recverr_rfc4884" "" false INET_DIAG_SOCKOPT 15 .u8 (ofConnInfo.inetSockopt + 1)
    .drRecverrRfc4884 .sortRecverrRfc4884 .fpBool .faRecverrRfc4884,
  defineField "defer_connect" "" false INET_DIAG_SOCKOPT 13 .u8 (ofConnInfo.inetSockopt + 1)
    .drDeferConnect .sortDeferConnect .fpBool .faDeferConnect]

end Sockmon
