import Gateway.Lib.Bytes

/-!
# The binary packet protocol (`include/protocol/Packet.hpp`)

A packet is a packed six-byte header (version, type, big-endian payload length)
followed by the payload. The text that `deserialize` prints on `std::cerr` is
not modelled.
-/

namespace Gateway.Protocol

/-- `MAX_PAYLOAD_SIZE`: 64 KB. -/
def maxPayloadSize : ℕ := 65536

/-- `PROTOCOL_VERSION` -/
def protocolVersion : UInt8 := 1

/-- `sizeof(PacketHeader)`, packed. -/
def headerSize : ℕ := 6

inductive PacketType where
  | hello
  | auth
  | data
  | ping
  | pong
  | error
deriving DecidableEq, Repr

/-- `static_cast<uint8_t>(type)` -/
def PacketType.toByte : PacketType → UInt8
  | .hello => 0x01
  | .auth => 0x02
  | .data => 0x03
  | .ping => 0x04
  | .pong => 0x05
  | .error => 0x06

/-- The enumerator a byte stands for; the six declared values only. -/
def PacketType.ofByte (b : UInt8) : Option PacketType :=
  [PacketType.hello, .auth, .data, .ping, .pong, .error].find? fun type => type.toByte == b

theorem PacketType.ofByte_toByte (type : PacketType) : ofByte type.toByte = some type := by
  cases type <;> rfl

structure PacketHeader where
  version : UInt8
  type : UInt8
  length : Net32
deriving DecidableEq, Repr

/-- The six bytes of the packed header in memory. -/
def PacketHeader.bytes (h : PacketHeader) : Bytes := h.version :: h.type :: h.length.bytes

/-- `memcpy(&raw_hdr, buffer, sizeof(PacketHeader))`, used on six bytes or more. -/
def readHeader (buffer : Bytes) : PacketHeader where
  version := buffer.getD 0 0
  type := buffer.getD 1 0
  length := ⟨buffer.getD 2 0, buffer.getD 3 0, buffer.getD 4 0, buffer.getD 5 0⟩

structure Packet where
  header : PacketHeader
  payload : Bytes
deriving DecidableEq, Repr

namespace Packet

/-- `Packet()` -/
def new : Packet := ⟨⟨protocolVersion, PacketType.data.toByte, ⟨0, 0, 0, 0⟩⟩, []⟩

/-- `Packet(PacketType, const std::vector<uint8_t>&)`, with the text of the
`std::invalid_argument` it throws. -/
def ofData (type : PacketType) (data : Bytes) : Except String Packet :=
  if data.length > maxPayloadSize then
    .error "Payload exceeds MAX_PAYLOAD_SIZE limit"
  else
    .ok ⟨⟨protocolVersion, type.toByte, htonl (.ofNat 32 data.length)⟩, data⟩

def getPayloadLength (p : Packet) : BitVec 32 := ntohl p.header.length

/-- `static_cast<PacketType>(header.type)`; `none` stands for a value of the
enumeration's byte type that no enumerator has. -/
def getType (p : Packet) : Option PacketType := PacketType.ofByte p.header.type

/-- The buffer is sized from the header field and filled from the payload;
`none` when a copy would run past its end. -/
def serialize (p : Packet) : Option Bytes := do
  let buffer := List.replicate (headerSize + p.getPayloadLength.toNat) 0
  let buffer ← memcpy buffer 0 p.header.bytes
  if p.payload.isEmpty then pure buffer else memcpy buffer headerSize p.payload

/-- `deserialize(buffer, size, out_packet)` with `size = |buffer|`: the returned
flag and the contents of `out_packet` afterwards. -/
def deserialize (buffer : Bytes) (outPacket : Packet) : Bool × Packet :=
  if buffer.length < headerSize then (false, outPacket)
  else
    let rawHdr := readHeader buffer
    if rawHdr.version ≠ protocolVersion then (false, outPacket)
    else
      let payloadLen := (ntohl rawHdr.length).toNat
      if payloadLen > maxPayloadSize then (false, outPacket)
      else if buffer.length < headerSize + payloadLen then (false, outPacket)
      else (true, ⟨rawHdr, (buffer.drop headerSize).take payloadLen⟩)

end Packet

@[simp] theorem bytes_length (h : PacketHeader) : h.bytes.length = headerSize := rfl

@[simp] theorem readHeader_bytes_append (h : PacketHeader) (s : Bytes) :
    readHeader (h.bytes ++ s) = h := rfl

/-- Six bytes are a header, and the header is those six bytes. -/
theorem bytes_readHeader (buffer : Bytes) (h : headerSize ≤ buffer.length) :
    (readHeader buffer).bytes = buffer.take headerSize := by
  match buffer, h with
  | _ :: _ :: _ :: _ :: _ :: _ :: _, _ => rfl

/-- What the decoder checks before it touches `out_packet`: a whole header of
this version, and the announced payload, within the limit, in the buffer. -/
def Framed (buffer : Bytes) : Prop :=
  headerSize ≤ buffer.length ∧ (readHeader buffer).version = protocolVersion ∧
    (ntohl (readHeader buffer).length).toNat ≤ maxPayloadSize ∧
    headerSize + (ntohl (readHeader buffer).length).toNat ≤ buffer.length

instance (buffer : Bytes) : Decidable (Framed buffer) :=
  inferInstanceAs (Decidable (_ ∧ _ ∧ _ ∧ _))

/-- The whole behaviour of the decoder. -/
theorem deserialize_eq (buffer : Bytes) (out : Packet) :
    Packet.deserialize buffer out =
      if Framed buffer then
        (true, ⟨readHeader buffer,
          (buffer.drop headerSize).take (ntohl (readHeader buffer).length).toNat⟩)
      else (false, out) := by
  by_cases h : Framed buffer
  · obtain ⟨h1, h2, h3, h4⟩ := id h
    rw [if_pos h, Packet.deserialize, if_neg (by omega)]
    dsimp only
    rw [if_neg (not_not_intro h2), if_neg (by omega), if_neg (by omega)]
  · rw [if_neg h, Packet.deserialize]
    dsimp only
    split_ifs with h1 h2 h3 h4
    any_goals rfl
    exact absurd ⟨by omega, not_not.mp h2, by omega, by omega⟩ h

end Gateway.Protocol
