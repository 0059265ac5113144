import KernelBoot.Lib.InternetChecksum

/-!
# TCP segments on the wire (`kernel/drivers/network/tcp.c`)

`tcp_segment_build` writes a header of twenty bytes and the payload behind it; `tcp_segment_parse`
takes a packet apart and checks it. The checksum covers the addresses of the two hosts too. A packet
is at most 65535 bytes long, so the 32-bit sum does not overflow. Pointers are taken to be given.
-/

namespace KernelBoot.Network

open Lib

/-- An IPv4 address. -/
abbrev Address := Vector UInt8 4

/-- A 32-bit sequence number. -/
abbrev Sequence := BitVec 32

/-- `TCP_HEADER_SIZE`. -/
def tcpHeaderSize : Nat := 20

/-- `TCP_MAX_PACKET_SIZE`. -/
def tcpMaxPacketSize : Nat := 65535

/-- `TCP_FLAG_FIN`. -/
def tcpFlagFin : UInt8 := 0x01

/-- `TCP_FLAG_SYN`. -/
def tcpFlagSyn : UInt8 := 0x02

/-- `TCP_FLAG_RST`. -/
def tcpFlagRst : UInt8 := 0x04

/-- `TCP_FLAG_PSH`. -/
def tcpFlagPsh : UInt8 := 0x08

/-- `TCP_FLAG_ACK`. -/
def tcpFlagAck : UInt8 := 0x10

/-- One of the flags of a mask is set. -/
def flagged (flags mask : UInt8) : Prop := flags &&& mask ≠ 0

instance (flags mask : UInt8) : Decidable (flagged flags mask) := inferInstanceAs (Decidable (_ ≠ _))

/-- `tcp_segment_view_t`. -/
structure TcpSegment where
  sourcePort : UInt16
  destinationPort : UInt16
  sequence : Sequence
  acknowledgment : Sequence
  dataOffset : UInt8 := 5
  flags : UInt8
  window : UInt16
  urgent : UInt16 := 0
  payload : List UInt8
  deriving DecidableEq

/-- The flags `tcp_segment_build` and `tcp_segment_parse` refuse together. -/
def synFin (flags : UInt8) : Prop :=
  flags &&& (tcpFlagSyn ||| tcpFlagFin) = tcpFlagSyn ||| tcpFlagFin

instance (flags : UInt8) : Decidable (synFin flags) := inferInstanceAs (Decidable (_ = _))

/-- `checksum`: the sum of the pseudo header and the packet. -/
def tcpChecksum (packet : List UInt8) (source destination : Address) : Nat :=
  complementSum (wordSum source.toList + wordSum destination.toList + 6 + packet.length + wordSum packet)

/-- The header, with a value in the checksum field. -/
def headerBytes (segment : TcpSegment) (check : Nat) : List UInt8 :=
  be16 segment.sourcePort.toNat ++ be16 segment.destinationPort.toNat ++
    be32 segment.sequence.toNat ++ be32 segment.acknowledgment.toNat ++
    [segment.dataOffset <<< 4, segment.flags] ++ be16 segment.window.toNat ++ be16 check ++
    be16 segment.urgent.toNat

/-- `tcp_segment_build`. Every flag is a known one, so `flags & ~TCP_FLAG_KNOWN` is zero. -/
def tcpSegmentBuild (capacity : Nat) (source destination : Address) (sourcePort destinationPort : UInt16)
    (sequence acknowledgment : Sequence) (flags : UInt8) (window : UInt16) (payload : List UInt8) :
    Option (List UInt8) :=
  if sourcePort = 0 ∨ destinationPort = 0 ∨ synFin flags ∨
      tcpMaxPacketSize - tcpHeaderSize < payload.length then none
  else if capacity < tcpHeaderSize + payload.length then none
  else
    let segment : TcpSegment :=
      { sourcePort, destinationPort, sequence, acknowledgment, flags, window, payload }
    let check := tcpChecksum (headerBytes segment 0 ++ payload) source destination
    some (headerBytes segment check ++ payload)

/-- `tcp_segment_parse`. -/
def tcpSegmentParse (packet : List UInt8) (source destination : Address) : Option TcpSegment :=
  if packet.length < tcpHeaderSize then none
  else
    let dataOffset := packet.getD 12 0 >>> 4
    let flags := packet.getD 13 0
    let headerLength := dataOffset.toNat * 4
    if dataOffset < 5 ∨ packet.length < headerLength ∨ loadBe16 packet 0 = 0 ∨ loadBe16 packet 2 = 0 ∨
        packet.getD 12 0 &&& 0x0f ≠ 0 ∨ synFin flags ∨ tcpChecksum packet source destination ≠ 0 then none
    else
      some
        { sourcePort := UInt16.ofNat (loadBe16 packet 0)
          destinationPort := UInt16.ofNat (loadBe16 packet 2)
          sequence := BitVec.ofNat 32 (loadBe32 packet 4)
          acknowledgment := BitVec.ofNat 32 (loadBe32 packet 8)
          dataOffset, flags
          window := UInt16.ofNat (loadBe16 packet 14)
          urgent := UInt16.ofNat (loadBe16 packet 18)
          payload := packet.drop headerLength }

end KernelBoot.Network
