import AoSdl.Lib.Escape
import AoSdl.Text

/-! AO packets: the escaping of field texts, the wire format, and the factory that builds a
packet from a header and fields. -/
namespace AoSdl

def ao_encode (s : Bytes) : Bytes :=
  s.flatMap fun c =>
    if c = 35 then bytes "<pound>"
    else if c = 37 then bytes "<percent>"
    else if c = 38 then bytes "<and>"
    else if c = 36 then bytes "<dollar>"
    else [c]

def replace_all (src dst out : Bytes) : Bytes := Lib.Escape.replaceAll src dst out

def ao_decode (s : Bytes) : Bytes :=
  let out := replace_all (bytes "<pound>") (bytes "#") s
  let out := replace_all (bytes "<percent>") (bytes "%") out
  let out := replace_all (bytes "<and>") (bytes "&") out
  replace_all (bytes "<dollar>") (bytes "$") out

def ao_decode_list (fields : List Bytes) : List Bytes := fields.map ao_decode

/-- `default_value` stands for anything but the decimal text of an `int`. -/
def safe_stoi (field : Bytes) (default_value : Int := 0) : Int :=
  match Lib.Decimal.readExact field with
  | none => default_value
  | some n => if -2 ^ 31 ≤ n ∧ n < 2 ^ 31 then n else default_value

structure AOPacket where
  header : Bytes
  fields : List Bytes
  deriving DecidableEq

/-- The classes registered with the factory, under the headers of the same name. -/
inductive PacketType where
  | decryptor | HI | ID | PN | askchaa | ASS | SI | RC | SC | RM | SM | CH | CHECK | RD | DONE
  | CharsCheck | PW | CC | MS | MC | ARUP | BN | PV | FL | FA | FM | HP | TI | LE | PR | PU | ZZ
  | CT | MA | RT | PE | EE | DE | CASEA | SETCASE
  deriving DecidableEq

namespace PacketFactory

def creators : List (Bytes × PacketType) :=
  [(bytes "decryptor", .decryptor), (bytes "HI", .HI), (bytes "ID", .ID), (bytes "PN", .PN),
    (bytes "askchaa", .askchaa), (bytes "ASS", .ASS), (bytes "SI", .SI), (bytes "RC", .RC),
    (bytes "SC", .SC), (bytes "RM", .RM), (bytes "SM", .SM), (bytes "CH", .CH),
    (bytes "CHECK", .CHECK), (bytes "RD", .RD), (bytes "DONE", .DONE),
    (bytes "CharsCheck", .CharsCheck), (bytes "PW", .PW), (bytes "CC", .CC), (bytes "MS", .MS),
    (bytes "MC", .MC), (bytes "ARUP", .ARUP), (bytes "BN", .BN), (bytes "PV", .PV),
    (bytes "FL", .FL), (bytes "FA", .FA), (bytes "FM", .FM), (bytes "HP", .HP),
    (bytes "TI", .TI), (bytes "LE", .LE), (bytes "PR", .PR), (bytes "PU", .PU),
    (bytes "ZZ", .ZZ), (bytes "CT", .CT), (bytes "MA", .MA), (bytes "RT", .RT),
    (bytes "PE", .PE), (bytes "EE", .EE), (bytes "DE", .DE), (bytes "CASEA", .CASEA),
    (bytes "SETCASE", .SETCASE)]

def find (header : Bytes) : Option PacketType := creators.lookup header

/-- The class registered for `DONE` has no constructor that takes fields. -/
def create_packet (header : Bytes) (fields : List Bytes) : AOPacket :=
  match find header with
  | some .DONE => ⟨bytes "DONE", []⟩
  | _ => ⟨header, fields⟩

end PacketFactory

namespace AOPacket

def serialize (p : AOPacket) : Bytes :=
  p.fields.foldl (fun packet field => packet ++ bytes "#" ++ field) p.header ++ bytes "#%"

/-- `none` stands for the exception on a missing delimiter. -/
def deserialize (serialized : Bytes) : Option AOPacket :=
  if serialized.length < 2 || serialized.drop (serialized.length - 2) ≠ bytes "#%" then none
  else
    let content := serialized.take (serialized.length - 2)
    match content.splitOn 35 with
    | [] => none
    | header :: fields => some (PacketFactory.create_packet header fields)

end AOPacket

open Lib.Escape

def escapes : List (Entry UInt8) :=
  [⟨35, bytes "<pound>"⟩, ⟨37, bytes "<percent>"⟩, ⟨38, bytes "<and>"⟩, ⟨36, bytes "<dollar>"⟩]

theorem escapes_bracketed : Bracketed 60 escapes where
  opened := by
    have heads : ∀ e ∈ escapes, e.token = 60 :: e.token.tail ∧ e.token.tail ≠ [] ∧
        60 ∉ e.token.tail := by decide
    exact fun e member => ⟨e.token.tail, heads e member⟩
  plain := by decide
  apart := by decide

theorem ao_encode_eq (s : Bytes) : ao_encode s = escape escapes s := by
  refine List.flatMap_congr fun c _ => ?_
  by_cases pound : c = 35
  · subst pound; rfl
  by_cases percent : c = 37
  · subst percent; rfl
  by_cases ampersand : c = 38
  · subst ampersand; rfl
  by_cases dollar : c = 36
  · subst dollar; rfl
  simp [escapeLetter, escapes, pound, percent, ampersand, dollar, Ne.symm pound, Ne.symm percent,
    Ne.symm ampersand, Ne.symm dollar]

theorem ao_decode_eq (s : Bytes) : ao_decode s = unescape escapes s := rfl

/-- No escape token occurs in the text. -/
def TokenFree (s : Bytes) : Prop := Free escapes s

instance : DecidablePred TokenFree := fun s =>
  inferInstanceAs (Decidable (∀ e ∈ escapes, ¬ e.token <:+: s))

theorem ao_decode_encode {s : Bytes} (free : TokenFree s) : ao_decode (ao_encode s) = s := by
  rw [ao_encode_eq, ao_decode_eq]
  exact unescape_escape escapes_bracketed free

theorem ao_decode_eq_self {s : Bytes} : ao_decode s = s ↔ TokenFree s :=
  unescape_eq_self escapes_bracketed

theorem ao_encode_special (s : Bytes) : ∀ e ∈ escapes, e.letter ∉ ao_encode s := fun _ member => by
  rw [ao_encode_eq]
  exact letter_not_mem_escape escapes_bracketed member s

theorem ao_encode_clean (s : Bytes) : 35 ∉ ao_encode s ∧ 37 ∉ ao_encode s :=
  ⟨ao_encode_special s ⟨35, bytes "<pound>"⟩ (by decide), ao_encode_special s ⟨37, bytes "<percent>"⟩ (by decide)⟩

/-- Texts without a token are read back from their encodings, which have no special letter and are
as distinct as the texts. -/
theorem escaping_law {s : Bytes} (free : TokenFree s) :
    ao_decode (ao_encode s) = s ∧ (∀ c ∈ bytes "#%$&", c ∉ ao_encode s) ∧
      ∀ t, TokenFree t → t ≠ s → ao_encode t ≠ ao_encode s := by
  have letters : ∀ c ∈ bytes "#%$&", ∃ e ∈ escapes, e.letter = c := by decide +kernel
  refine ⟨ao_decode_encode free, fun c member => ?_, fun t free' differs same => ?_⟩
  · obtain ⟨e, known, rfl⟩ := letters c member
    exact ao_encode_special s e known
  · have read := congrArg ao_decode same
    rw [ao_decode_encode free', ao_decode_encode free] at read
    exact differs read

theorem escaping_law_less : ao_decode (ao_encode (bytes "<b>#1 & <more")) = bytes "<b>#1 & <more" ∧
    (∀ c ∈ bytes "#%$&", c ∉ ao_encode (bytes "<b>#1 & <more")) ∧
      ∀ t, TokenFree t → t ≠ bytes "<b>#1 & <more" → ao_encode t ≠ ao_encode (bytes "<b>#1 & <more") :=
  escaping_law (by decide +kernel)

/-- The token of the number sign is not `<num>`. -/
theorem pound_token_lost : (∀ token ∈ [bytes "<num>", bytes "<percent>", bytes "<dollar>", bytes "<and>"],
      ¬ token <:+: bytes "<pound>") ∧
    ao_decode (ao_encode (bytes "<pound>")) ≠ bytes "<pound>" := by
  decide +kernel

theorem safe_stoi_to_string {n : Int} (low : -2 ^ 31 ≤ n) (high : n < 2 ^ 31) (d : Int) :
    safe_stoi (to_string n) d = n := by
  simp only [safe_stoi, to_string, Lib.Decimal.readExact_text]
  exact if_pos ⟨low, high⟩

theorem to_string_apart (n : Int) : ∀ c ∈ to_string n, c ≠ 35 ∧ c ≠ 37 ∧ c ≠ 60 ∧ c ≠ 99 := by
  intro c member
  rcases Lib.Decimal.text_digits n c member with digit | rfl
  · have range := (Lib.Decimal.isDigit_iff c).mp digit
    refine ⟨?_, ?_, ?_, ?_⟩ <;> rintro rfl <;> simp at range
  · decide

end AoSdl
