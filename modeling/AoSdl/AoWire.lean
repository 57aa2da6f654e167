import AoSdl.AoPacket
import AoSdl.AreaState
import AoSdl.Lib.Fields
import AoSdl.Lib.Framing

/-! Packets on the wire and at a receiver: when a serialised packet is read as exactly one
packet with the fields it was built from. -/
namespace AoSdl
open Lib.Framing

/-- Frames end with `#%`. -/
def packetCutter : Cutter UInt8 Bytes := delimited 35 37 (by decide)

/-- The packet built from the text in front of the delimiter. -/
def parse_content (content : Bytes) : AOPacket :=
  PacketFactory.create_packet ((content.splitOn 35).headD []) (content.splitOn 35).tail

theorem deserialize_frame (content : Bytes) :
    AOPacket.deserialize (content ++ bytes "#%") = some (parse_content content) := by
  have length : (content ++ bytes "#%").length = content.length + 2 := List.length_append
  have front : (content ++ bytes "#%").take content.length = content := List.take_left
  have back : (content ++ bytes "#%").drop content.length = bytes "#%" := List.drop_left
  unfold AOPacket.deserialize parse_content
  simp only [length, Nat.add_sub_cancel, front, back]
  cases shape : content.splitOn 35 with
  | nil => exact absurd shape (by simp)
  | cons header fields => simp

/-- The text of a packet in front of the delimiter. -/
def AOPacket.content (p : AOPacket) : Bytes := Lib.Fields.join 35 p.header p.fields

theorem serialize_eq (p : AOPacket) : p.serialize = p.content ++ bytes "#%" := by
  obtain ⟨header, fields⟩ := p
  suffices joined : fields.foldl (fun packet field => packet ++ bytes "#" ++ field) header =
      Lib.Fields.join 35 header fields by
    rw [AOPacket.serialize, joined, AOPacket.content]
  induction fields generalizing header with
  | nil => simp
  | cons f fields ih =>
    rw [List.foldl_cons, ih, Lib.Fields.join_cons]
    cases fields with
    | nil => simp [bytes]; rfl
    | cons g fields => simp [Lib.Fields.join_cons]; rfl

/-- A header and fields that the wire format keeps apart. -/
structure WireClean (p : AOPacket) : Prop where
  header : 35 ∉ p.header
  fields : ∀ f ∈ p.fields, 35 ∉ f

theorem parse_content_eq {p : AOPacket} (clean : WireClean p) :
    parse_content p.content = PacketFactory.create_packet p.header p.fields := by
  rw [parse_content, AOPacket.content, Lib.Fields.splitOn_join clean.header clean.fields]
  rfl

theorem mem_content {p : AOPacket} {c : UInt8} (inside : c ∈ p.content) :
    c = 35 ∨ c ∈ p.header ∨ ∃ f ∈ p.fields, c ∈ f := by
  obtain ⟨header, fields⟩ := p
  unfold AOPacket.content at inside
  dsimp only at inside ⊢
  induction fields generalizing header with
  | nil => exact .inr (.inl (by simpa using inside))
  | cons f fields ih =>
    rw [Lib.Fields.join_cons] at inside
    rcases List.mem_append.mp inside with front | rest
    · exact .inr (.inl front)
    · rcases List.mem_cons.mp rest with mark | rest
      · exact .inl mark
      · rcases ih f rest with mark | first | ⟨g, member, later⟩
        · exact .inl mark
        · exact .inr (.inr ⟨f, List.mem_cons_self, first⟩)
        · exact .inr (.inr ⟨g, List.mem_cons_of_mem f member, later⟩)

namespace AOClient

/-- The packets taken out of the receive buffer once a message is appended, and what stays. -/
def on_message (incomplete_buf message : Bytes) : List (Option AOPacket) × Bytes :=
  let frames := packetCutter.drain (incomplete_buf ++ message)
  (frames.1.map fun complete_msg => AOPacket.deserialize (complete_msg ++ bytes "#%"), frames.2)

end AOClient

namespace AOPacketLE

def item (raw : Bytes) : EvidenceItem :=
  match Lib.Fields.splitFirst 38 raw with
  | none => { name := raw }
  | some (name, rest) =>
    match Lib.Fields.splitFirst 38 rest with
    | none => { name, description := rest }
    | some (description, image) => { name, description, image }

def items (fields : List Bytes) : List EvidenceItem := (ao_decode_list fields).map item

end AOPacketLE

/-- A text in front of the delimiter is read as one packet exactly if it has no delimiter. -/
theorem on_message_one {content : Bytes} {p : AOPacket} :
    AOClient.on_message [] (content ++ bytes "#%") = ([some p], []) ↔
      ¬ [35, 37] <:+: content ∧ p = parse_content content := by
  unfold AOClient.on_message
  simp only [List.nil_append, deserialize_frame, Prod.mk.injEq]
  constructor
  · rintro ⟨packets, rest⟩
    cases cut : packetCutter.cut (content ++ bytes "#%") with
    | none =>
      rw [Cutter.drain_none cut] at packets
      cases packets
    | some frame =>
      obtain ⟨c, r⟩ := frame
      rw [Cutter.drain_some cut] at packets rest
      obtain ⟨first, none⟩ := List.cons.inj packets
      have empty : r = [] := by
        cases more : packetCutter.cut r with
        | none => rw [Cutter.drain_none more] at rest; exact rest
        | some frame => rw [Cutter.drain_some more] at none; cases none
      have text := cutAt_eq cut
      rw [empty] at text
      obtain rfl : content = c := List.append_cancel_right text
      exact ⟨cutAt_clean cut, (Option.some.inj first).symm⟩
  · rintro ⟨clean, rfl⟩
    have cut : packetCutter.cut (content ++ bytes "#%") = some (content, []) :=
      cutAt_append (by decide) clean []
    rw [Cutter.drain_some cut, Cutter.drain_none Cutter.cut_nil]
    exact ⟨rfl, rfl⟩

theorem create_packet_eq {header : Bytes} (kept : PacketFactory.find header ≠ some .DONE)
    (fields : List Bytes) : PacketFactory.create_packet header fields = ⟨header, fields⟩ := by
  unfold PacketFactory.create_packet
  split
  · next done => exact absurd done kept
  · rfl

theorem create_packet_fields {header h : Bytes} {fields : List Bytes}
    (kept : PacketFactory.find header ≠ some .DONE)
    (same : (PacketFactory.create_packet h fields).header = header) :
    (PacketFactory.create_packet h fields).fields = fields := by
  unfold PacketFactory.create_packet at same ⊢
  split at same
  · exact absurd (by rw [← same]; rfl) kept
  · rfl

/-- A serialised packet is read as one packet of its header whose fields have the readings
expected exactly if no field has a `#` or starts with `%`, and the fields have these readings. -/
theorem reads_back {β : Type} {header : Bytes} {fields : List Bytes} {read : Bytes → β} {texts : List β}
    (plain_header : 35 ∉ header) (kept : PacketFactory.find header ≠ some .DONE)
    (many : texts.length = fields.length) :
    (∃ p, AOClient.on_message [] (AOPacket.serialize ⟨header, fields⟩) = ([some p], []) ∧
        p.header = header ∧ p.fields.map read = texts) ↔
      (∀ f ∈ fields, 35 ∉ f ∧ f.head? ≠ some 37) ∧ fields.map read = texts := by
  have apart (clean : ∀ f ∈ fields, 35 ∉ f) :
      [35, 37] <:+: AOPacket.content ⟨header, fields⟩ ↔ ∃ f ∈ fields, f.head? = some 37 :=
    Lib.Fields.delimiter_join (by decide) plain_header clean
  have parsed (clean : ∀ f ∈ fields, 35 ∉ f) :
      parse_content (AOPacket.content ⟨header, fields⟩) = ⟨header, fields⟩ :=
    (parse_content_eq ⟨plain_header, clean⟩).trans (create_packet_eq kept fields)
  rw [serialize_eq]
  simp only [on_message_one]
  constructor
  · rintro ⟨p, ⟨clean, rfl⟩, same_header, same⟩
    have each : ∀ f ∈ fields, 35 ∉ f := by
      suffices same_length : ((AOPacket.content ⟨header, fields⟩).splitOn 35).length =
        fields.length + 1 from (Lib.Fields.splitOn_join_length.mp same_length).2
      have length := congrArg List.length same
      rw [List.length_map, parse_content, create_packet_fields kept same_header, List.length_tail, many] at length
      have positive := List.length_pos_iff.mpr
        (List.splitOn_ne_nil 35 (AOPacket.content ⟨header, fields⟩))
      omega
    rw [parsed each] at same
    refine ⟨fun f member => ⟨each f member, fun starts => clean ?_⟩, same⟩
    exact (apart each).mpr ⟨f, member, starts⟩
  · rintro ⟨plain, same⟩
    have each : ∀ f ∈ fields, 35 ∉ f := fun f member => (plain f member).1
    refine ⟨_, ⟨fun occurs => ?_, rfl⟩, ?_, ?_⟩
    · obtain ⟨f, member, starts⟩ := (apart each).mp occurs
      exact (plain f member).2 starts
    · rw [parsed each]
    · rw [parsed each]
      exact same

theorem on_message_serialize {header : Bytes} {fields : List Bytes} (plain_header : 35 ∉ header)
    (kept : PacketFactory.find header ≠ some .DONE)
    (plain : ∀ f ∈ fields, 35 ∉ f ∧ f.head? ≠ some 37) :
    AOClient.on_message [] (AOPacket.serialize ⟨header, fields⟩) = ([some ⟨header, fields⟩], []) := by
  have each : ∀ f ∈ fields, 35 ∉ f := fun f member => (plain f member).1
  rw [serialize_eq, on_message_one, parse_content_eq ⟨plain_header, each⟩, create_packet_eq kept]
  refine ⟨fun occurs => ?_, rfl⟩
  obtain ⟨f, member, starts⟩ :=
    (Lib.Fields.delimiter_join (by decide) plain_header each).mp occurs
  exact (plain f member).2 starts

/-- The first packet of a serialised one with a last field of any kind starts with its other
fields. -/
theorem first_packet {header : Bytes} {fields : List Bytes} (header_clean : 35 ∉ header ∧ 37 ∉ header)
    (kept : PacketFactory.find header ≠ some .DONE) (clean : ∀ f ∈ fields, 35 ∉ f ∧ 37 ∉ f)
    (last : Bytes) :
    ∃ content rest more,
      packetCutter.cut (AOPacket.serialize ⟨header, fields ++ [last]⟩) = some (content, rest) ∧
        parse_content content = ⟨header, fields ++ more⟩ := by
  have join_append : ∀ (header : Bytes) (fields : List Bytes),
      Lib.Fields.join 35 header (fields ++ [last]) = Lib.Fields.join 35 header fields ++ 35 :: last := by
    intro header fields
    induction fields generalizing header with
    | nil => simp [Lib.Fields.join_cons]
    | cons f fields ih => rw [List.cons_append, Lib.Fields.join_cons, ih, Lib.Fields.join_cons]; simp
  have end_clean : 37 ∉ Lib.Fields.join 35 header fields := by
    intro inside
    rcases mem_content (p := ⟨header, fields⟩) inside with mark | first | ⟨f, member, later⟩
    · exact absurd mark (by decide)
    · exact header_clean.2 first
    · exact (clean f member).2 later
  have parts : (Lib.Fields.join 35 header fields).splitOn 35 = header :: fields :=
    Lib.Fields.splitOn_join header_clean.1 fun f member => (clean f member).1
  have wire : AOPacket.serialize ⟨header, fields ++ [last]⟩ =
      Lib.Fields.join 35 header fields ++ 35 :: (last ++ bytes "#%") := by
    rw [serialize_eq, AOPacket.content, join_append]
    simp
  have ends : [35, 37] <:+: Lib.Fields.join 35 header fields ++ 35 :: (last ++ bytes "#%") :=
    ⟨Lib.Fields.join 35 header fields ++ 35 :: last, [], by simp; rfl⟩
  obtain ⟨content, rest, cut, shape⟩ := cutAt_behind (by decide) end_clean ends
  rw [wire]
  rcases shape with rfl | ⟨u, rfl⟩
  · refine ⟨_, rest, [], cut, ?_⟩
    rw [parse_content, parts, List.append_nil]
    exact create_packet_eq kept fields
  · refine ⟨_, rest, u.splitOn 35, cut, ?_⟩
    rw [parse_content, List.splitOn_append_cons_self, parts]
    exact create_packet_eq kept _

end AoSdl
