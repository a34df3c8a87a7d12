import Gateway.Network.PacketDissector

/-!
# What the dissector recovers of a frame

A well-formed frame is given by its fields in host order; the dissector finds the fields
again in the concatenated headers. The length of the IPv4 header comes from the frame, and
nothing checks that it covers the twenty bytes that were read.
-/

namespace Gateway.Network

/-! ## The bytes of the headers -/

def EthernetHeader.bytes (h : EthernetHeader) : Bytes :=
  h.destMac.bytes ++ (h.srcMac.bytes ++ h.etherType.bytes)

def IPv4Header.bytes (h : IPv4Header) : Bytes :=
  h.verIhl :: h.tos :: (h.totalLength.bytes ++ (h.identification.bytes ++
    (h.flagsFragment.bytes ++ (h.ttl :: h.protocol :: (h.checksum.bytes ++
      (h.srcIp.bytes ++ h.destIp.bytes))))))

def TCPHeader.bytes (h : TCPHeader) : Bytes :=
  h.srcPort.bytes ++ (h.destPort.bytes ++ (h.seqNum.bytes ++ (h.ackNum.bytes ++
    (h.dataOffset :: h.flags :: (h.windowSize.bytes ++ (h.checksum.bytes ++
      h.urgentPointer.bytes))))))

def UDPHeader.bytes (h : UDPHeader) : Bytes :=
  h.srcPort.bytes ++ (h.destPort.bytes ++ (h.length.bytes ++ h.checksum.bytes))

theorem length_bytes_ethernet (h : EthernetHeader) : h.bytes.length = ethernetHeaderSize := rfl

theorem length_bytes_ipv4 (h : IPv4Header) : h.bytes.length = ipv4HeaderSize := rfl

theorem length_bytes_tcp (h : TCPHeader) : h.bytes.length = tcpHeaderSize := rfl

theorem length_bytes_udp (h : UDPHeader) : h.bytes.length = udpHeaderSize := rfl

theorem readEthernetHeader_bytes (h : EthernetHeader) (s : Bytes) :
    readEthernetHeader (h.bytes ++ s) = h := rfl

theorem readIPv4Header_bytes (h : IPv4Header) (s : Bytes) :
    readIPv4Header (h.bytes ++ s) = h := rfl

theorem readTCPHeader_bytes (h : TCPHeader) (s : Bytes) : readTCPHeader (h.bytes ++ s) = h := rfl

theorem readUDPHeader_bytes (h : UDPHeader) (s : Bytes) : readUDPHeader (h.bytes ++ s) = h := rfl

/-! ## Well-formed frames -/

/-- The position of a flag in the flag byte. -/
def TcpFlag.bit : TcpFlag → ℕ
  | fin => 0
  | syn => 1
  | rst => 2
  | psh => 3
  | ack => 4

/-- The fields of a TCP or a UDP header, in host order. -/
inductive Transport where
  | tcp (srcPort destPort : BitVec 16) (seqNum ackNum : BitVec 32) (dataOffset flags : UInt8)
      (windowSize checksum urgentPointer : BitVec 16)
  | udp (srcPort destPort length checksum : BitVec 16)

namespace Transport

def protocol : Transport → UInt8
  | tcp .. => 6
  | udp .. => 17

def bytes : Transport → Bytes
  | tcp srcPort destPort seqNum ackNum dataOffset flags windowSize checksum urgentPointer =>
    TCPHeader.bytes ⟨htons srcPort, htons destPort, htonl seqNum, htonl ackNum, dataOffset, flags,
      htons windowSize, htons checksum, htons urgentPointer⟩
  | udp srcPort destPort length checksum =>
    UDPHeader.bytes ⟨htons srcPort, htons destPort, htons length, htons checksum⟩

/-- What is to be reported of the header: of the flags, those whose bit is set. -/
def line : Transport → ReportLine
  | tcp srcPort destPort seqNum ackNum _ flags _ _ _ =>
    .tcp srcPort destPort seqNum ackNum
      ([.syn, .ack, .fin, .rst, .psh].filter fun flag => flags.toBitVec.getLsbD flag.bit)
  | udp srcPort destPort length _ => .udp srcPort destPort length

end Transport

/-- An IPv4 frame with its fields in host order, and the addresses as they are sent. -/
structure Frame where
  destMac : Mac
  srcMac : Mac
  ihl : ℕ
  tos : UInt8
  totalLength : BitVec 16
  identification : BitVec 16
  flagsFragment : BitVec 16
  ttl : UInt8
  checksum : BitVec 16
  srcIp : Net32
  destIp : Net32
  options : Bytes
  transport : Transport
  payload : Bytes
  ihl_ge : 5 ≤ ihl
  ihl_le : ihl ≤ 15
  length_options : options.length = 4 * (ihl - 5)

namespace Frame

variable (f : Frame)

def ethernetHeader : EthernetHeader := ⟨f.destMac, f.srcMac, htons 0x0800⟩

/-- Version 4 in the upper half of the first byte. -/
def ipv4Header : IPv4Header where
  verIhl := 0x40 + .ofNat f.ihl
  tos := f.tos
  totalLength := htons f.totalLength
  identification := htons f.identification
  flagsFragment := htons f.flagsFragment
  ttl := f.ttl
  protocol := f.transport.protocol
  checksum := htons f.checksum
  srcIp := f.srcIp
  destIp := f.destIp

def bytes : Bytes :=
  f.ethernetHeader.bytes ++ (f.ipv4Header.bytes ++ (f.options ++ (f.transport.bytes ++ f.payload)))

end Frame

namespace PacketDissector

theorem toNat_ihl (f : Frame) : (ihl f.ipv4Header).toNat = 4 * f.ihl := by
  have hall : ∀ n : Fin 16, (((0x40 + .ofNat n) &&& 0x0F) * 4 : UInt8).toNat = 4 * n := by decide
  exact hall ⟨f.ihl, Nat.lt_succ_of_le f.ihl_le⟩

theorem flagsOf_eq (flags : UInt8) :
    flagsOf flags = [.syn, .ack, .fin, .rst, .psh].filter fun flag =>
      flags.toBitVec.getLsbD flag.bit := by
  have hall : ∀ flags : UInt8, flagsOf flags = [TcpFlag.syn, .ack, .fin, .rst, .psh].filter
      fun flag => flags.toBitVec.getLsbD flag.bit := forall_byte (by decide +kernel)
  exact hall flags

theorem macToString_eq (mac : Mac) :
    macToString mac = [58].intercalate (mac.bytes.map hexByte) := by
  simp [macToString, Mac.bytes, List.range_succ]

theorem ipToString_eq {inetNtop : Net32 → Bytes} (hntop : RendersDottedQuads inetNtop)
    (n : Net32) : ipToString inetNtop n =
      [46].intercalate [octet n.b0, octet n.b1, octet n.b2, octet n.b3] := by
  have hquad := cStr_dottedQuad (ntohl n)
  rw [dottedQuad, htonl_ntohl] at hquad
  rw [ipToString, hntop, hquad]

/-- The transport header is where the IPv4 header says it ends. -/
theorem drop_bytes (f : Frame) :
    f.bytes.drop (transportOffset f.ipv4Header) = f.transport.bytes ++ f.payload := by
  have hge := f.ihl_ge
  have hlength : (f.ethernetHeader.bytes ++ (f.ipv4Header.bytes ++ f.options)).length =
      transportOffset f.ipv4Header := by
    rw [List.length_append, List.length_append, length_bytes_ethernet, length_bytes_ipv4,
      f.length_options, transportOffset, toNat_ihl, ipv4HeaderSize]
    omega
  rw [Frame.bytes, ← List.append_assoc f.ipv4Header.bytes, ← List.append_assoc]
  exact List.drop_left' hlength

theorem length_bytes (f : Frame) :
    f.bytes.length =
      transportOffset f.ipv4Header + (f.transport.bytes.length + f.payload.length) := by
  have hge := f.ihl_ge
  rw [Frame.bytes, List.length_append, List.length_append, List.length_append, List.length_append,
    length_bytes_ethernet, length_bytes_ipv4, f.length_options, transportOffset, toNat_ihl,
    ipv4HeaderSize]
  omega

/-- A transport header that is in the buffer is reported. -/
theorem dissectTransport_bytes (t : Transport) {buffer payload : Bytes} {offset : ℕ}
    (hdrop : buffer.drop offset = t.bytes ++ payload)
    (hlen : offset + t.bytes.length ≤ buffer.length) :
    dissectTransport t.protocol buffer offset = [t.line, .lastRule] := by
  cases t with
  | tcp srcPort destPort seqNum ackNum dataOffset flags windowSize checksum urgentPointer =>
    rw [Transport.bytes, length_bytes_tcp] at hlen
    rw [Transport.protocol, dissectTransport, if_pos rfl, if_neg (by omega), hdrop,
      Transport.bytes, readTCPHeader_bytes, tcpLine]
    dsimp only
    rw [ntohs_htons, ntohs_htons, ntohl_htonl, ntohl_htonl, flagsOf_eq, Transport.line]
  | udp srcPort destPort length checksum =>
    rw [Transport.bytes, length_bytes_udp] at hlen
    rw [Transport.protocol, dissectTransport, if_neg (by decide), if_pos rfl, if_neg (by omega),
      hdrop, Transport.bytes, readUDPHeader_bytes, udpLine]
    dsimp only
    rw [ntohs_htons, ntohs_htons, ntohs_htons, Transport.line]

/-- The report on an IPv4 frame up to the transport header. -/
theorem dissectFrame_of_ipv4 (inetNtop : Net32 → Bytes) {buffer : Bytes}
    (hlen : ethernetHeaderSize + ipv4HeaderSize ≤ buffer.length)
    (htype : ntohs (readEthernetHeader buffer).etherType = 0x0800) :
    let eth := readEthernetHeader buffer
    let ip := readIPv4Header (buffer.drop ethernetHeaderSize)
    dissectFrame inetNtop buffer =
      .rule :: .title buffer.length :: .rule ::
        .ethernet (macToString eth.srcMac) (macToString eth.destMac) 0x0800 ::
        .ipv4 (ipToString inetNtop ip.srcIp) (ipToString inetNtop ip.destIp) ip.ttl
          (ntohs ip.totalLength) ip.protocol ::
        dissectTransport ip.protocol buffer (transportOffset ip) := by
  intro eth ip
  have hshort : ¬ buffer.length < ethernetHeaderSize := by omega
  simp only [dissectFrame, if_neg hshort, htype, if_neg (Nat.not_lt.mpr hlen)]
  rfl

/-- The dissector reports the fields of every well-formed frame. -/
theorem dissectFrame_bytes {inetNtop : Net32 → Bytes} (hntop : RendersDottedQuads inetNtop)
    (f : Frame) :
    dissectFrame inetNtop f.bytes =
      [.rule, .title f.bytes.length, .rule,
        .ethernet ([58].intercalate (f.srcMac.bytes.map hexByte))
          ([58].intercalate (f.destMac.bytes.map hexByte)) 0x0800,
        .ipv4 ([46].intercalate [octet f.srcIp.b0, octet f.srcIp.b1, octet f.srcIp.b2,
            octet f.srcIp.b3])
          ([46].intercalate [octet f.destIp.b0, octet f.destIp.b1, octet f.destIp.b2,
            octet f.destIp.b3]) f.ttl f.totalLength f.transport.protocol,
        f.transport.line, .lastRule] := by
  have hlength := length_bytes f
  have hge := f.ihl_ge
  have hlen : ethernetHeaderSize + ipv4HeaderSize ≤ f.bytes.length := by
    rw [hlength, transportOffset, toNat_ihl, ipv4HeaderSize]
    omega
  have heth : readEthernetHeader f.bytes = f.ethernetHeader := readEthernetHeader_bytes _ _
  have htype : ntohs (readEthernetHeader f.bytes).etherType = 0x0800 := by
    rw [heth]
    exact ntohs_htons _
  have hip : readIPv4Header (f.bytes.drop ethernetHeaderSize) = f.ipv4Header := by
    rw [Frame.bytes, List.drop_left' (length_bytes_ethernet _), readIPv4Header_bytes]
  have htransport := dissectTransport_bytes f.transport (drop_bytes f) (by omega)
  have hprotocol : f.ipv4Header.protocol = f.transport.protocol := rfl
  have hreport := dissectFrame_of_ipv4 inetNtop hlen htype
  dsimp only at hreport
  rw [heth, hip, hprotocol, htransport, macToString_eq, macToString_eq, ipToString_eq hntop,
    ipToString_eq hntop] at hreport
  rw [hreport, Frame.ipv4Header, ntohs_htons]
  rfl

/-- The frame that `craft_synthetic_tcp_syn_frame` builds. -/
def synFrame : Frame where
  destMac := ⟨0xFF, 0xFF, 0xFF, 0xFF, 0xFF, 0xFF⟩
  srcMac := ⟨0x00, 0x1A, 0x2B, 0x3C, 0x4D, 0x5E⟩
  ihl := 5
  tos := 0
  totalLength := 40
  identification := 1234
  flagsFragment := 0
  ttl := 64
  checksum := 0
  srcIp := ⟨192, 168, 1, 100⟩
  destIp := ⟨10, 0, 0, 1⟩
  options := []
  transport := .tcp 54321 8080 100000 0 0x50 0x02 65535 0 0
  payload := []
  ihl_ge := le_rfl
  ihl_le := by decide
  length_options := rfl

theorem dissectFrame_bytes_syn :
    dissectFrame inetNtop synFrame.bytes =
      [.rule, .title 54, .rule,
        .ethernet (ascii "00:1a:2b:3c:4d:5e") (ascii "ff:ff:ff:ff:ff:ff") 0x0800,
        .ipv4 (ascii "192.168.1.100") (ascii "10.0.0.1") 64 40 6,
        .tcp 54321 8080 100000 0 [.syn], .lastRule] :=
  (dissectFrame_bytes (fun _ => rfl) synFrame).trans (by decide +kernel)

example : (ReportLine.tcp 54321 8080 100000 0 [.syn, .ack]).text =
    ascii "[L4 TCP]          Src Port: 54321  ->  Dst Port: 8080  [Seq: 100000, Ack: 0]" ++
      ascii "  Flags: [ SYN ACK ]\n" := by
  decide +kernel

/-! ## Where the transport header is read -/

/-- The line is about a transport header, with its ports. -/
def HasPorts : ReportLine → Prop
  | .tcp .. => True
  | .udp .. => True
  | _ => False

/-- The line says that the frame is malformed. -/
def IsMalformed : ReportLine → Prop
  | .truncatedFrame => True
  | .truncatedIPv4 => True
  | .truncatedTcp => True
  | .truncatedUdp => True
  | _ => False

/-- The line is what the bytes of a whole header from `offset` on say. -/
inductive ReadAt (buffer : Bytes) (offset : ℕ) : ReportLine → Prop
  | tcp (hlen : offset + tcpHeaderSize ≤ buffer.length) :
      ReadAt buffer offset (tcpLine (readTCPHeader (buffer.drop offset)))
  | udp (hlen : offset + udpHeaderSize ≤ buffer.length) :
      ReadAt buffer offset (udpLine (readUDPHeader (buffer.drop offset)))

/-- The length of the IPv4 header in the frame, in words of four bytes. -/
def ihlOf (buffer : Bytes) : ℕ :=
  ((readIPv4Header (buffer.drop ethernetHeaderSize)).verIhl &&& 0x0F).toNat

/-- The buffer holds an Ethernet header for IPv4 and the fixed part of an IPv4 header. -/
def HoldsIPv4 (buffer : Bytes) : Prop :=
  ethernetHeaderSize + ipv4HeaderSize ≤ buffer.length ∧
    ntohs (readEthernetHeader buffer).etherType = 0x0800

/-- Ports are read from a header in the buffer that begins after the fixed part of the IPv4
header, and an IPv4 header that claims to be shorter than that part is malformed. -/
structure ReadsAfterIPv4Header (inetNtop : Net32 → Bytes) (buffer : Bytes) : Prop where
  ports : ∀ line ∈ dissectFrame inetNtop buffer, HasPorts line →
    ∃ offset, ethernetHeaderSize + ipv4HeaderSize ≤ offset ∧ ReadAt buffer offset line
  short : HoldsIPv4 buffer → ihlOf buffer < 5 →
    (∃ line ∈ dissectFrame inetNtop buffer, IsMalformed line) ∧
      ∀ line ∈ dissectFrame inetNtop buffer, ¬ HasPorts line

theorem toNat_ihl_eq (ip : IPv4Header) : (ihl ip).toNat = 4 * (ip.verIhl &&& 0x0F).toNat := by
  have hall : ∀ b : UInt8, ((b &&& 0x0F) * 4).toNat = 4 * (b &&& 0x0F).toNat :=
    forall_byte (by decide +kernel)
  exact hall ip.verIhl

theorem transportOffset_eq (buffer : Bytes) :
    transportOffset (readIPv4Header (buffer.drop ethernetHeaderSize)) =
      ethernetHeaderSize + 4 * ihlOf buffer := by
  rw [transportOffset, toNat_ihl_eq, ihlOf]

/-- The transport part of the report: a header that is read, a header that is not whole, or
nothing. -/
inductive TransportReport (protocol : UInt8) (buffer : Bytes) (offset : ℕ) :
    List ReportLine → Prop
  | truncated {line : ReportLine} (hmalformed : IsMalformed line) (hports : ¬ HasPorts line)
      (hlen : protocol = 6 ∧ buffer.length < offset + tcpHeaderSize ∨
        protocol = 17 ∧ buffer.length < offset + udpHeaderSize) :
      TransportReport protocol buffer offset [line]
  | header {line : ReportLine} (hread : ReadAt buffer offset line) (hports : HasPorts line)
      (htcp : protocol = 6 → offset + tcpHeaderSize ≤ buffer.length)
      (hudp : protocol = 17 → offset + udpHeaderSize ≤ buffer.length) :
      TransportReport protocol buffer offset [line, .lastRule]
  | other (htcp : protocol ≠ 6) (hudp : protocol ≠ 17) :
      TransportReport protocol buffer offset [.lastRule]

theorem transportReport (protocol : UInt8) (buffer : Bytes) (offset : ℕ) :
    TransportReport protocol buffer offset (dissectTransport protocol buffer offset) := by
  rw [dissectTransport]
  split_ifs with htcp hlen hudp hlen
  · exact .truncated trivial id (.inl ⟨htcp, hlen⟩)
  · have hudp : protocol ≠ 17 := by
      rw [htcp]
      decide
    exact .header (.tcp (Nat.not_lt.mp hlen)) trivial (fun _ => Nat.not_lt.mp hlen)
      fun h => absurd h hudp
  · exact .truncated trivial id (.inr ⟨hudp, hlen⟩)
  · exact .header (.udp (Nat.not_lt.mp hlen)) trivial (fun h => absurd h htcp)
      fun _ => Nat.not_lt.mp hlen
  · exact .other htcp hudp

/-- Of the report on an IPv4 frame only the transport part has ports or an error. -/
theorem mem_dissectFrame (inetNtop : Net32 → Bytes) {buffer : Bytes} (hipv4 : HoldsIPv4 buffer)
    {line : ReportLine} (hline : HasPorts line ∨ IsMalformed line) :
    line ∈ dissectFrame inetNtop buffer ↔
      line ∈ dissectTransport (readIPv4Header (buffer.drop ethernetHeaderSize)).protocol buffer
        (ethernetHeaderSize + 4 * ihlOf buffer) := by
  have hreport := dissectFrame_of_ipv4 inetNtop hipv4.1 hipv4.2
  dsimp only at hreport
  rw [hreport, transportOffset_eq]
  simp only [List.mem_cons]
  constructor
  · rintro (rfl | rfl | rfl | rfl | rfl | h)
    -- the five lines before the transport part
    iterate 5 exact (hline.elim id id).elim
    exact h
  · intro h
    simp [h]

theorem not_hasPorts_of_not_holdsIPv4 (inetNtop : Net32 → Bytes) {buffer : Bytes}
    (hipv4 : ¬ HoldsIPv4 buffer) {line : ReportLine} (h : line ∈ dissectFrame inetNtop buffer) :
    ¬ HasPorts line := by
  by_cases hlen : ethernetHeaderSize + ipv4HeaderSize ≤ buffer.length
  · have htype : ntohs (readEthernetHeader buffer).etherType ≠ 0x0800 :=
      fun htype => hipv4 ⟨hlen, htype⟩
    -- a frame of another type is named and nothing more is read of it
    simp only [dissectFrame, if_pos htype, List.mem_cons] at h
    split_ifs at h
    · omega
    all_goals
      simp only [List.mem_cons, List.not_mem_nil, or_false] at h
      rcases h with rfl | rfl | rfl | rfl | rfl <;> exact id
  · simp only [dissectFrame, if_pos (Nat.not_le.mp hlen), List.mem_cons] at h
    split_ifs at h
    all_goals
      simp only [List.mem_cons, List.not_mem_nil, or_false] at h
    · rcases h with rfl | rfl | rfl | rfl <;> exact id
    all_goals
      rcases h with rfl | rfl | rfl | rfl | rfl <;> exact id

section Cases
variable {inetNtop : Net32 → Bytes} {buffer : Bytes} {line : ReportLine}

/-- A report on a header that is not whole has no ports. -/
theorem readsAfterIPv4Header_of_truncated
    (hmem : ∀ other, HasPorts other ∨ IsMalformed other →
      (other ∈ dissectFrame inetNtop buffer ↔ other ∈ [line]))
    (hmalformed : IsMalformed line) (hports : ¬ HasPorts line) :
    ReadsAfterIPv4Header inetNtop buffer := by
  have honly : ∀ other ∈ dissectFrame inetNtop buffer, ¬ HasPorts other := by
    intro other h hother
    obtain rfl := List.mem_singleton.mp ((hmem other (.inl hother)).mp h)
    exact hports hother
  refine ⟨?_, ?_⟩
  · intro other h hother
    exact absurd hother (honly other h)
  · intro _ _
    refine ⟨⟨line, ?_, hmalformed⟩, honly⟩
    exact (hmem line (.inr hmalformed)).mpr (List.mem_singleton_self line)

/-- A header that is read begins where the IPv4 header ends. -/
theorem readsAfterIPv4Header_iff_of_header (hipv4 : HoldsIPv4 buffer)
    (hmem : ∀ other, HasPorts other ∨ IsMalformed other →
      (other ∈ dissectFrame inetNtop buffer ↔ other ∈ [line, .lastRule]))
    (hread : ReadAt buffer (ethernetHeaderSize + 4 * ihlOf buffer) line)
    (hports : HasPorts line) :
    ReadsAfterIPv4Header inetNtop buffer ↔ 5 ≤ ihlOf buffer := by
  constructor
  · intro h
    by_contra hihl
    have hline : line ∈ dissectFrame inetNtop buffer :=
      (hmem line (.inl hports)).mpr List.mem_cons_self
    exact (h.short hipv4 (Nat.not_le.mp hihl)).2 line hline hports
  · intro hihl
    refine ⟨?_, fun _ hshort => absurd hihl (Nat.not_le.mpr hshort)⟩
    intro other h hother
    refine ⟨ethernetHeaderSize + 4 * ihlOf buffer, ?_, ?_⟩
    · show ethernetHeaderSize + 4 * 5 ≤ ethernetHeaderSize + 4 * ihlOf buffer
      omega
    · rcases List.mem_pair.mp ((hmem other (.inl hother)).mp h) with rfl | rfl
      · exact hread
      · exact hother.elim

/-- A frame for another protocol is reported neither with ports nor as malformed. -/
theorem readsAfterIPv4Header_iff_of_other (hipv4 : HoldsIPv4 buffer)
    (hmem : ∀ other, HasPorts other ∨ IsMalformed other →
      (other ∈ dissectFrame inetNtop buffer ↔ other ∈ [ReportLine.lastRule])) :
    ReadsAfterIPv4Header inetNtop buffer ↔ 5 ≤ ihlOf buffer := by
  constructor
  · intro h
    by_contra hihl
    obtain ⟨line, hline, hmalformed⟩ := (h.short hipv4 (Nat.not_le.mp hihl)).1
    obtain rfl := List.mem_singleton.mp ((hmem line (.inr hmalformed)).mp hline)
    exact hmalformed
  · intro hihl
    refine ⟨?_, fun _ hshort => absurd hihl (Nat.not_le.mpr hshort)⟩
    intro line h hports
    obtain rfl := List.mem_singleton.mp ((hmem line (.inl hports)).mp h)
    exact hports.elim

end Cases

/-- The dissector reads the ports after the fixed IPv4 header and reports shorter headers as
malformed exactly when the header length in the frame is at least twenty bytes, or the frame
is short, not IPv4, or ends before the transport header it is searched for. -/
theorem readsAfterIPv4Header_iff (inetNtop : Net32 → Bytes) (buffer : Bytes) :
    let protocol := (readIPv4Header (buffer.drop ethernetHeaderSize)).protocol
    let offset := ethernetHeaderSize + 4 * ihlOf buffer
    ReadsAfterIPv4Header inetNtop buffer ↔
      5 ≤ ihlOf buffer ∨
      buffer.length < ethernetHeaderSize + ipv4HeaderSize ∨
      ntohs (readEthernetHeader buffer).etherType ≠ 0x0800 ∨
      protocol = 6 ∧ buffer.length < offset + tcpHeaderSize ∨
      protocol = 17 ∧ buffer.length < offset + udpHeaderSize := by
  intro protocol offset
  by_cases hipv4 : HoldsIPv4 buffer
  · have hmem : ∀ line, HasPorts line ∨ IsMalformed line →
        (line ∈ dissectFrame inetNtop buffer ↔ line ∈ dissectTransport protocol buffer offset) :=
      fun line hline => mem_dissectFrame inetNtop hipv4 hline
    have hlong : ¬ buffer.length < ethernetHeaderSize + ipv4HeaderSize := Nat.not_lt.mpr hipv4.1
    have hcases := transportReport protocol buffer offset
    generalize dissectTransport protocol buffer offset = report at hmem hcases
    -- an error is what is wanted of a short header, a header that is read is not, nor is silence
    cases hcases with
    | truncated hmalformed hports hlen =>
      exact iff_of_true (readsAfterIPv4Header_of_truncated hmem hmalformed hports)
        (.inr (.inr (.inr hlen)))
    | header hread hports htcp hudp =>
      rw [readsAfterIPv4Header_iff_of_header hipv4 hmem hread hports]
      refine ⟨Or.inl, ?_⟩
      rintro (hihl | hshort | htype | ⟨hp, hlen⟩ | ⟨hp, hlen⟩)
      · exact hihl
      · exact absurd hshort hlong
      · exact absurd hipv4.2 htype
      · exact absurd (htcp hp) (Nat.not_le.mpr hlen)
      · exact absurd (hudp hp) (Nat.not_le.mpr hlen)
    | other htcp hudp =>
      rw [readsAfterIPv4Header_iff_of_other hipv4 hmem]
      refine ⟨Or.inl, ?_⟩
      rintro (hihl | hshort | htype | ⟨hp, -⟩ | ⟨hp, -⟩)
      · exact hihl
      · exact absurd hshort hlong
      · exact absurd hipv4.2 htype
      · exact absurd hp htcp
      · exact absurd hp hudp
  · refine iff_of_true ⟨fun line h hports => ?_, fun h => absurd h hipv4⟩ ?_
    · exact absurd hports (not_hasPorts_of_not_holdsIPv4 inetNtop hipv4 h)
    · by_cases hlen : buffer.length < ethernetHeaderSize + ipv4HeaderSize
      · exact .inr (.inl hlen)
      · exact .inr (.inr (.inl fun htype => hipv4 ⟨Nat.not_lt.mp hlen, htype⟩))

/-- A SYN frame whose header length was set to zero: the bytes of the IPv4 header are
reported as a TCP header. -/
theorem zero_ihl_reads_ipv4Header :
    let buffer := synFrame.bytes.set 14 0x40
    .tcp 16384 40 80871424 1074135040 [.psh] ∈ dissectFrame inetNtop buffer ∧
      ReadAt buffer 14 (.tcp 16384 40 80871424 1074135040 [.psh]) ∧
      ¬ ReadsAfterIPv4Header inetNtop buffer := by
  intro buffer
  have hline : .tcp 16384 40 80871424 1074135040 [.psh] ∈ dissectFrame inetNtop buffer := by
    decide +kernel
  have hread : tcpLine (readTCPHeader (buffer.drop 14)) =
      .tcp 16384 40 80871424 1074135040 [.psh] := by
    decide +kernel
  have hipv4 : ethernetHeaderSize + ipv4HeaderSize ≤ buffer.length ∧
      ntohs (readEthernetHeader buffer).etherType = 0x0800 ∧ ihlOf buffer < 5 := by
    decide +kernel
  refine ⟨hline, hread ▸ .tcp (by decide +kernel), fun h => ?_⟩
  exact (h.short ⟨hipv4.1, hipv4.2.1⟩ hipv4.2.2).2 _ hline trivial

end PacketDissector

end Gateway.Network
