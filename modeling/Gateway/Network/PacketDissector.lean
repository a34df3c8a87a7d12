import Gateway.Lib.Libc

/-!
# The packet dissector (`include/network/PacketDissector.hpp`)

`dissect_frame` prints what it finds of the Ethernet, IPv4 and TCP or UDP headers in a
captured buffer. The report is a list of lines, each with the text that is printed for it.
`inet_ntop(AF_INET, ..)` is a parameter.
-/

namespace Gateway.Network

/-- `uint8_t mac[6]` -/
structure Mac where
  b0 : UInt8
  b1 : UInt8
  b2 : UInt8
  b3 : UInt8
  b4 : UInt8
  b5 : UInt8
deriving DecidableEq, Repr

def Mac.bytes (m : Mac) : Bytes := [m.b0, m.b1, m.b2, m.b3, m.b4, m.b5]

/-! ## Packed headers -/

structure EthernetHeader where
  destMac : Mac
  srcMac : Mac
  etherType : Net16
deriving DecidableEq, Repr

structure IPv4Header where
  verIhl : UInt8
  tos : UInt8
  totalLength : Net16
  identification : Net16
  flagsFragment : Net16
  ttl : UInt8
  protocol : UInt8
  checksum : Net16
  srcIp : Net32
  destIp : Net32
deriving DecidableEq, Repr

structure TCPHeader where
  srcPort : Net16
  destPort : Net16
  seqNum : Net32
  ackNum : Net32
  dataOffset : UInt8
  flags : UInt8
  windowSize : Net16
  checksum : Net16
  urgentPointer : Net16
deriving DecidableEq, Repr

structure UDPHeader where
  srcPort : Net16
  destPort : Net16
  length : Net16
  checksum : Net16
deriving DecidableEq, Repr

/-- `sizeof(EthernetHeader)` -/
def ethernetHeaderSize : ℕ := 14

/-- `sizeof(IPv4Header)` -/
def ipv4HeaderSize : ℕ := 20

/-- `sizeof(TCPHeader)` -/
def tcpHeaderSize : ℕ := 20

/-- `sizeof(UDPHeader)` -/
def udpHeaderSize : ℕ := 8

section Read
variable (buffer : Bytes)

def readMac (i : ℕ) : Mac :=
  ⟨buffer.getD i 0, buffer.getD (i + 1) 0, buffer.getD (i + 2) 0, buffer.getD (i + 3) 0,
    buffer.getD (i + 4) 0, buffer.getD (i + 5) 0⟩

def readNet16 (i : ℕ) : Net16 := ⟨buffer.getD i 0, buffer.getD (i + 1) 0⟩

def readNet32 (i : ℕ) : Net32 :=
  ⟨buffer.getD i 0, buffer.getD (i + 1) 0, buffer.getD (i + 2) 0, buffer.getD (i + 3) 0⟩

/-- `memcpy(&eth, buffer, sizeof(EthernetHeader))`, used on 14 bytes or more. -/
def readEthernetHeader : EthernetHeader where
  destMac := readMac buffer 0
  srcMac := readMac buffer 6
  etherType := readNet16 buffer 12

/-- `memcpy(&ip, buffer, sizeof(IPv4Header))`, used on 20 bytes or more. -/
def readIPv4Header : IPv4Header where
  verIhl := buffer.getD 0 0
  tos := buffer.getD 1 0
  totalLength := readNet16 buffer 2
  identification := readNet16 buffer 4
  flagsFragment := readNet16 buffer 6
  ttl := buffer.getD 8 0
  protocol := buffer.getD 9 0
  checksum := readNet16 buffer 10
  srcIp := readNet32 buffer 12
  destIp := readNet32 buffer 16

/-- `memcpy(&tcp, buffer, sizeof(TCPHeader))`, used on 20 bytes or more. -/
def readTCPHeader : TCPHeader where
  srcPort := readNet16 buffer 0
  destPort := readNet16 buffer 2
  seqNum := readNet32 buffer 4
  ackNum := readNet32 buffer 8
  dataOffset := buffer.getD 12 0
  flags := buffer.getD 13 0
  windowSize := readNet16 buffer 14
  checksum := readNet16 buffer 16
  urgentPointer := readNet16 buffer 18

/-- `memcpy(&udp, buffer, sizeof(UDPHeader))`, used on 8 bytes or more. -/
def readUDPHeader : UDPHeader where
  srcPort := readNet16 buffer 0
  destPort := readNet16 buffer 2
  length := readNet16 buffer 4
  checksum := readNet16 buffer 6

end Read

/-! ## The report -/

inductive TcpFlag where
  | syn
  | ack
  | fin
  | rst
  | psh
deriving DecidableEq, Repr

/-- What `dissect_frame` prints. -/
inductive ReportLine where
  | rule
  | title (size : ℕ)
  | truncatedFrame
  | ethernet (srcMac destMac : Bytes) (etherType : BitVec 16)
  | nonIPv4 (kind : Bytes)
  | truncatedIPv4
  | ipv4 (srcIp destIp : Bytes) (ttl : UInt8) (totalLen : BitVec 16) (protocol : UInt8)
  | truncatedTcp
  | tcp (srcPort destPort : BitVec 16) (seqNum ackNum : BitVec 32) (flags : List TcpFlag)
  | truncatedUdp
  | udp (srcPort destPort length : BitVec 16)
  | lastRule
deriving DecidableEq

/-- A number under `std::dec`. -/
def decText (n : ℕ) : Bytes := (Nat.toDigits 10 n).map Char.toUInt8

theorem toNat_toUInt8_of_isDigit {c : Char} (h : c.isDigit = true) :
    c.toUInt8.toNat = c.toNat ∧ isDigit c.toUInt8 = true := by
  have hrange : 48 ≤ c.toNat ∧ c.toNat ≤ 57 := by
    simp only [Char.isDigit, Bool.and_eq_true, decide_eq_true_eq] at h
    exact h
  have hnat : c.toUInt8.toNat = c.toNat := by
    have hmod : c.toUInt8.toNat = c.toNat % 256 := rfl
    omega
  refine ⟨hnat, ?_⟩
  rw [isDigit_iff, hnat]
  exact hrange

theorem decText_ne_nil (n : ℕ) : decText n ≠ [] := by
  simp [decText, Nat.toDigits_ne_nil]

theorem isDigit_decText {n : ℕ} {c : UInt8} (h : c ∈ decText n) : isDigit c = true := by
  obtain ⟨d, hd, rfl⟩ := List.mem_map.mp h
  exact (toNat_toUInt8_of_isDigit (Nat.isDigit_of_mem_toDigits (by decide) le_rfl hd)).2

/-- The digits read back as the number. -/
theorem decimal_decText (n : ℕ) : decimal (decText n) = n := by
  have hfold (l : List Char) (hl : ∀ c ∈ l, c.isDigit = true) (k : ℕ) :
      (l.map Char.toUInt8).foldl (fun n c => 10 * n + (c.toNat - 48)) k =
        Nat.ofDigitChars 10 l k := by
    induction l generalizing k with
    | nil => simp
    | cons c l ih =>
      have hc := (toNat_toUInt8_of_isDigit (hl c List.mem_cons_self)).1
      have hzero : '0'.toNat = 48 := rfl
      rw [List.map_cons, List.foldl_cons, Nat.ofDigitChars_cons, hc, hzero,
        ih (fun d hd => hl d (List.mem_cons_of_mem c hd))]
  rw [decimal, decText, hfold _ (fun c hc => Nat.isDigit_of_mem_toDigits (by decide) le_rfl hc),
    Nat.ofDigitChars_ten_toDigits]

/-- A digit under `std::hex`. -/
def hexDigit (d : UInt8) : UInt8 := if d < 10 then 48 + d else 87 + d

/-- A byte under `std::hex << std::setw(2) << std::setfill('0')`. -/
def hexByte (b : UInt8) : Bytes := [hexDigit (b / 16), hexDigit (b % 16)]

def TcpFlag.text : TcpFlag → Bytes
  | syn => ascii "SYN "
  | ack => ascii "ACK "
  | fin => ascii "FIN "
  | rst => ascii "RST "
  | psh => ascii "PSH "

/-- The pieces of a line in the order in which they are written. -/
def ReportLine.pieces : ReportLine → List Bytes
  | rule => [List.replicate 100 61, [10]]
  | title size => [ascii " RAW PACKET FRAME DISSECTION [", decText size, ascii " Bytes]\n"]
  | truncatedFrame => [ascii "[!] Frame truncated: less than 14-byte Ethernet header\n"]
  | ethernet srcMac destMac etherType =>
    [ascii "[L2 Ethernet II]  Src MAC: ", srcMac, ascii "  ->  Dst MAC: ", destMac,
      ascii "  [EtherType: 0x", hexByte (htons etherType).b0, hexByte (htons etherType).b1,
      ascii "]\n"]
  | nonIPv4 kind => [ascii "  (Non-IPv4 Frame: ", kind, ascii ")\n"]
  | truncatedIPv4 => [ascii "[!] Truncated IPv4 Packet\n"]
  | ipv4 srcIp destIp ttl totalLen protocol =>
    [ascii "[L3 IPv4]         Src IP : ", srcIp, ascii "  ->  Dst IP : ", destIp, ascii "  [TTL: ",
      decText ttl.toNat, ascii ", Total Len: ", decText totalLen.toNat, ascii " B, Protocol: ",
      decText protocol.toNat, ascii "]\n"]
  | truncatedTcp => [ascii "[!] Truncated TCP Segment\n"]
  | tcp srcPort destPort seqNum ackNum flags =>
    [ascii "[L4 TCP]          Src Port: ", decText srcPort.toNat, ascii "  ->  Dst Port: ",
      decText destPort.toNat, ascii "  [Seq: ", decText seqNum.toNat, ascii ", Ack: ",
      decText ackNum.toNat, ascii "]", ascii "  Flags: [ ", flags.flatMap TcpFlag.text,
      ascii "]\n"]
  | truncatedUdp => [ascii "[!] Truncated UDP Segment\n"]
  | udp srcPort destPort length =>
    [ascii "[L4 UDP]          Src Port: ", decText srcPort.toNat, ascii "  ->  Dst Port: ",
      decText destPort.toNat, ascii "  [Length: ", decText length.toNat, ascii " B]\n"]
  | lastRule => [List.replicate 100 61, [10, 10]]

def ReportLine.text (line : ReportLine) : Bytes := line.pieces.flatten

namespace PacketDissector

/-- Six bytes in hexadecimal, with a colon after each but the last. -/
def macToString (mac : Mac) : Bytes :=
  (List.range 6).flatMap fun i => hexByte (mac.bytes.getD i 0) ++ if i < 5 then [58] else []

/-- `inet_ntop` fills a buffer that is read as a C string. -/
def ipToString (inetNtop : Net32 → Bytes) (ipNet : Net32) : Bytes := cStr (inetNtop ipNet)

/-- The tests of the flag byte, in the order of the source. -/
def flagsOf (flags : UInt8) : List TcpFlag :=
  [if flags &&& 0x02 ≠ 0 then [TcpFlag.syn] else [],
    if flags &&& 0x10 ≠ 0 then [TcpFlag.ack] else [],
    if flags &&& 0x01 ≠ 0 then [TcpFlag.fin] else [],
    if flags &&& 0x04 ≠ 0 then [TcpFlag.rst] else [],
    if flags &&& 0x08 ≠ 0 then [TcpFlag.psh] else []].flatten

/-- `uint8_t ihl = (ip.ver_ihl & 0x0F) * 4` -/
def ihl (ip : IPv4Header) : UInt8 := (ip.verIhl &&& 0x0F) * 4

/-- `offset` after `offset += ihl`: where the transport header is read. -/
def transportOffset (ip : IPv4Header) : ℕ := ethernetHeaderSize + (ihl ip).toNat

def tcpLine (tcp : TCPHeader) : ReportLine :=
  .tcp (ntohs tcp.srcPort) (ntohs tcp.destPort) (ntohl tcp.seqNum) (ntohl tcp.ackNum)
    (flagsOf tcp.flags)

def udpLine (udp : UDPHeader) : ReportLine :=
  .udp (ntohs udp.srcPort) (ntohs udp.destPort) (ntohs udp.length)

/-- The part of `dissect_frame` after the IPv4 line. -/
def dissectTransport (protocol : UInt8) (buffer : Bytes) (offset : ℕ) : List ReportLine :=
  if protocol = 6 then
    if buffer.length < offset + tcpHeaderSize then [.truncatedTcp]
    else [tcpLine (readTCPHeader (buffer.drop offset)), .lastRule]
  else if protocol = 17 then
    if buffer.length < offset + udpHeaderSize then [.truncatedUdp]
    else [udpLine (readUDPHeader (buffer.drop offset)), .lastRule]
  else [.lastRule]

/-- `dissect_frame(buffer, size)` with `size = |buffer|`. -/
def dissectFrame (inetNtop : Net32 → Bytes) (buffer : Bytes) : List ReportLine :=
  .rule :: .title buffer.length :: .rule ::
    if buffer.length < ethernetHeaderSize then [.truncatedFrame]
    else
      let eth := readEthernetHeader buffer
      let etherType := ntohs eth.etherType
      .ethernet (macToString eth.srcMac) (macToString eth.destMac) etherType ::
        if etherType ≠ 0x0800 then
          [.nonIPv4 (if etherType = 0x0806 then ascii "ARP" else ascii "Other")]
        else if buffer.length < ethernetHeaderSize + ipv4HeaderSize then [.truncatedIPv4]
        else
          let ip := readIPv4Header (buffer.drop ethernetHeaderSize)
          .ipv4 (ipToString inetNtop ip.srcIp) (ipToString inetNtop ip.destIp) ip.ttl
              (ntohs ip.totalLength) ip.protocol ::
            dissectTransport ip.protocol buffer (transportOffset ip)

end PacketDissector

end Gateway.Network
