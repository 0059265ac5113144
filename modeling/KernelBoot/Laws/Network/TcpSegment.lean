import KernelBoot.Network.TcpSegment

/-!
# A built segment parses

What `tcp_segment_build` writes, `tcp_segment_parse` takes apart into the same fields when it is given
the same addresses.
-/

namespace KernelBoot.Network

open Lib

variable (segment : TcpSegment)

/-- The checks of `tcp_segment_build`, all passed. -/
structure Buildable (capacity : Nat) (sourcePort destinationPort : UInt16) (flags : UInt8)
    (payload : List UInt8) : Prop where
  sourcePort_ne : sourcePort ≠ 0
  destinationPort_ne : destinationPort ≠ 0
  not_synFin : ¬synFin flags
  fits : tcpHeaderSize + payload.length ≤ tcpMaxPacketSize
  room : tcpHeaderSize + payload.length ≤ capacity

variable {capacity : Nat} {source destination : Address} {sourcePort destinationPort window : UInt16}
  {sequence acknowledgment : Sequence} {flags : UInt8} {payload packet : List UInt8}

/-- The packet of a segment. -/
def packetOf (segment : TcpSegment) (source destination : Address) : List UInt8 :=
  headerBytes segment (tcpChecksum (headerBytes segment 0 ++ segment.payload) source destination) ++
    segment.payload

theorem tcpSegmentBuild_eq_some_iff :
    tcpSegmentBuild capacity source destination sourcePort destinationPort sequence acknowledgment flags
        window payload = some packet ↔
      Buildable capacity sourcePort destinationPort flags payload ∧
        packet = packetOf { sourcePort, destinationPort, sequence, acknowledgment, flags, window, payload }
          source destination := by
  rw [tcpSegmentBuild]
  split_ifs with hchecks hcapacity
  · refine iff_of_false nofun fun h => ?_
    obtain ⟨hsource, hdestination, hflags, hfits, -⟩ := h.1
    have hlength : ¬tcpMaxPacketSize - tcpHeaderSize < payload.length := by omega
    exact (not_or.mpr ⟨hsource, not_or.mpr ⟨hdestination, not_or.mpr ⟨hflags, hlength⟩⟩⟩) hchecks
  · refine iff_of_false nofun fun h => ?_
    have := h.1.room
    omega
  · simp only [not_or] at hchecks
    obtain ⟨hsource, hdestination, hflags, hlength⟩ := hchecks
    have hbuildable : Buildable capacity sourcePort destinationPort flags payload :=
      ⟨hsource, hdestination, hflags, by simp only [tcpMaxPacketSize, tcpHeaderSize] at *; omega,
        by omega⟩
    rw [Option.some.injEq, eq_comm]
    exact ⟨fun h => ⟨hbuildable, h⟩, fun h => h.2⟩

@[simp] theorem length_headerBytes (segment : TcpSegment) (check : Nat) :
    (headerBytes segment check).length = tcpHeaderSize := rfl

theorem length_packetOf :
    (packetOf segment source destination).length = tcpHeaderSize + segment.payload.length := by
  rw [packetOf, List.length_append, length_headerBytes]

/-- The header up to the checksum field. -/
private def headerFront (segment : TcpSegment) : List UInt8 :=
  be16 segment.sourcePort.toNat ++ be16 segment.destinationPort.toNat ++
    be32 segment.sequence.toNat ++ be32 segment.acknowledgment.toNat ++
    [segment.dataOffset <<< 4, segment.flags] ++ be16 segment.window.toNat

/-- The checksum field adds its value to the sum of the packet. -/
theorem wordSum_headerBytes {check : Nat} (h : check < 2 ^ 16) :
    wordSum (headerBytes segment check ++ segment.payload) =
      wordSum (headerBytes segment 0 ++ segment.payload) + check := by
  have hsplit : ∀ value < 2 ^ 16, wordSum (headerBytes segment value ++ segment.payload) =
      wordSum (headerFront segment) + (value + wordSum (be16 segment.urgent.toNat ++ segment.payload)) := by
    intro value hvalue
    have happend : headerBytes segment value ++ segment.payload =
        headerFront segment ++ (be16 value ++ (be16 segment.urgent.toNat ++ segment.payload)) := by
      simp only [headerBytes, headerFront, List.append_assoc]
    have heven : (headerFront segment).length % 2 = 0 := by simp [headerFront]
    rw [happend, wordSum_append _ heven, wordSum_append _ (by simp), wordSum_be16 hvalue]
  rw [hsplit check h, hsplit 0 (by decide)]
  omega

/-- The checksum of a packet that carries its checksum. -/
theorem tcpChecksum_packetOf :
    tcpChecksum (packetOf segment source destination) source destination = 0 := by
  have hcheck : tcpChecksum (headerBytes segment 0 ++ segment.payload) source destination < 2 ^ 16 :=
    complementSum_lt _
  rw [tcpChecksum, length_packetOf, packetOf, wordSum_headerBytes segment hcheck, ← Nat.add_assoc,
    tcpChecksum, List.length_append, length_headerBytes]
  exact complementSum_add_complementSum _

/-- The fields of a header, read where `tcp_segment_parse` reads them. -/
theorem header_fields (check : Nat) (rest : List UInt8) :
    (loadBe16 (headerBytes segment check ++ rest) 0 = segment.sourcePort.toNat ∧
      loadBe16 (headerBytes segment check ++ rest) 2 = segment.destinationPort.toNat) ∧
    (loadBe32 (headerBytes segment check ++ rest) 4 = segment.sequence.toNat ∧
      loadBe32 (headerBytes segment check ++ rest) 8 = segment.acknowledgment.toNat) ∧
    ((headerBytes segment check ++ rest).getD 12 0 = segment.dataOffset <<< 4 ∧
      (headerBytes segment check ++ rest).getD 13 0 = segment.flags) ∧
    loadBe16 (headerBytes segment check ++ rest) 14 = segment.window.toNat ∧
      loadBe16 (headerBytes segment check ++ rest) 18 = segment.urgent.toNat :=
  ⟨⟨loadBe16_eq segment.sourcePort.toNat_lt rfl rfl,
      loadBe16_eq segment.destinationPort.toNat_lt rfl rfl⟩,
    ⟨loadBe32_eq segment.sequence.isLt rfl rfl rfl rfl,
      loadBe32_eq segment.acknowledgment.isLt rfl rfl rfl rfl⟩,
    ⟨rfl, rfl⟩,
    loadBe16_eq segment.window.toNat_lt rfl rfl, loadBe16_eq segment.urgent.toNat_lt rfl rfl⟩

theorem tcpSegmentParse_packetOf {segment : TcpSegment} (hsource : segment.sourcePort ≠ 0)
    (hdestination : segment.destinationPort ≠ 0) (hflags : ¬synFin segment.flags)
    (hoffset : segment.dataOffset = 5) :
    tcpSegmentParse (packetOf segment source destination) source destination = some segment := by
  have hsum : tcpChecksum (packetOf segment source destination) source destination = 0 :=
    tcpChecksum_packetOf segment
  have hlength : (packetOf segment source destination).length = tcpHeaderSize + segment.payload.length :=
    length_packetOf segment
  have hpayload : (packetOf segment source destination).drop 20 = segment.payload := rfl
  obtain ⟨⟨h0, h2⟩, ⟨h4, h8⟩, ⟨h12, h13⟩, h14, h18⟩ := header_fields segment
    (tcpChecksum (headerBytes segment 0 ++ segment.payload) source destination) segment.payload
  rw [← packetOf] at h0 h2 h4 h8 h12 h13 h14 h18
  have hnibble : (5 : UInt8) <<< 4 >>> 4 = 5 := by decide
  have hlow : (5 : UInt8) <<< 4 &&& 0x0f = 0 := by decide
  have htwenty : (5 : UInt8).toNat * 4 = 20 := by decide
  rw [tcpSegmentParse, if_neg (by omega)]
  simp only [h0, h2, h4, h8, h12, h13, h14, h18, hsum, hoffset, hnibble, hlow, htwenty, hpayload]
  rw [if_neg]
  · obtain ⟨sourcePort, destinationPort, sequence, acknowledgment, dataOffset, flags, window, urgent,
      payload⟩ := segment
    simp only [UInt16.ofNat_toNat, BitVec.ofNat_toNat, BitVec.setWidth_eq] at hoffset ⊢
    rw [hoffset]
  · have hports : segment.sourcePort.toNat ≠ 0 ∧ segment.destinationPort.toNat ≠ 0 :=
      ⟨fun h => hsource (UInt16.toNat_inj.mp h), fun h => hdestination (UInt16.toNat_inj.mp h)⟩
    have hlong : ¬(packetOf segment source destination).length < 20 := by
      rw [hlength, tcpHeaderSize]
      omega
    simp [hports, hflags, hlong]

/-- `tcp_segment_parse` undoes `tcp_segment_build`. -/
theorem tcpSegmentParse_tcpSegmentBuild
    (h : tcpSegmentBuild capacity source destination sourcePort destinationPort sequence acknowledgment
      flags window payload = some packet) :
    tcpSegmentParse packet source destination =
      some { sourcePort, destinationPort, sequence, acknowledgment, flags, window, payload } := by
  obtain ⟨hbuildable, rfl⟩ := tcpSegmentBuild_eq_some_iff.mp h
  exact tcpSegmentParse_packetOf hbuildable.sourcePort_ne hbuildable.destinationPort_ne
    hbuildable.not_synFin rfl

theorem tcpChecksum_of_parse (h : tcpSegmentParse packet source destination ≠ none) :
    tcpChecksum packet source destination = 0 := by
  by_contra hsum
  exact h (by simp [tcpSegmentParse, hsum])

/-- Of two packets that differ in one byte at most one is accepted. -/
theorem tcpSegmentParse_corrupted (packet : List UInt8) (source destination : Address) (i : Nat)
    (value : UInt8) : packet.set i value = packet ∨ tcpSegmentParse packet source destination = none ∨
      tcpSegmentParse (packet.set i value) source destination = none := by
  by_contra! h
  obtain ⟨hchanged, hsent, harrived⟩ := h
  have hsum := mod_of_complementSum (tcpChecksum_of_parse hsent)
  have hsum' := mod_of_complementSum (tcpChecksum_of_parse harrived)
  rw [List.length_set] at hsum'
  exact hchanged (set_of_wordSum (by omega))

end KernelBoot.Network
