import AoSdl.ReadOnlyEndpoints

/-! The list of areas and music: how the server loads the music, sends both as one list, and how the
client takes the list apart by the look of its entries. -/
namespace AoSdl

namespace ContentConfig

/-- `value(key, "")` of an object. `none` stands for the exception on a value that is no text. -/
def text_value (fields : List (Bytes × Json)) (key : Bytes) : Option Bytes :=
  match fields.lookup key with
  | none => some []
  | some (.string text) => some text
  | some _ => none

/-- The text, unless it is empty. -/
def entry (text : Bytes) : List Bytes := if text.isEmpty then [] else [text]

def load_song : Json → Option (List Bytes)
  | .object fields => (text_value fields (bytes "name")).map entry
  | _ => some []

def load_category : Json → Option (List Bytes)
  | .object fields => do
    let header ← text_value fields (bytes "category")
    let songs ← match fields.lookup (bytes "songs") with
      | some (.array songs) => songs.mapM load_song
      | _ => some []
    return entry header ++ songs.flatten
  | _ => some []

/-- The headers of the categories with their songs, in one list. -/
def load_music_json : Json → Option (List Bytes)
  | .array root => (root.mapM load_category).map List.flatten
  | _ => some []

/-- An area's name behind the number in its section's header. -/
def area_name (header : Bytes) : Bytes :=
  if 58 ∈ header then (header.dropWhile (· ≠ 58)).tail else header

end ContentConfig

/-- What the server sends as `SM`. -/
def AOPacketRM.combined (r : GameRoom) : List Bytes := r.areas ++ r.music

namespace AOPacketSM

def exts : List Bytes := [bytes ".wav", bytes ".mp3", bytes ".mp4", bytes ".ogg", bytes ".opus"]

def has_audio_extension (name : Bytes) : Bool := exts.any (·.isSuffixOf name)

structure Split where
  areas : List Bytes := []
  tracks : List Bytes := []
  in_music : Bool := false

/-- The entry in front of the first audio file is taken for a header. -/
def step (s : Split) (entry : Bytes) : Split :=
  if s.in_music then { s with tracks := s.tracks ++ [entry] }
  else if has_audio_extension entry then
    { areas := s.areas.dropLast, tracks := s.tracks ++ s.areas.getLast?.toList ++ [entry], in_music := true }
  else { s with areas := s.areas ++ [entry] }

inductive AOConnectionState where
  | NOT_CONNECTED | CONNECTED | JOINED
  deriving DecidableEq

/-- The areas and the tracks that the client publishes. `none` stands for the exception. -/
def handle (conn_state : AOConnectionState) (music_list : List Bytes) : Option (List Bytes × List Bytes) :=
  if conn_state ≠ .CONNECTED then none
  else
    let s := music_list.foldl step {}
    some (s.areas, s.tracks)

/-- The client gets back the server's areas and its music. -/
def Recovers (r : GameRoom) : Prop := handle .CONNECTED (AOPacketRM.combined r) = some (r.areas, r.music)

/-- No audio file among the entries. -/
def Silent (entries : List Bytes) : Prop := ∀ e ∈ entries, has_audio_extension e = false

/-- The music begins with a header and an audio file, or without areas with an audio file. -/
inductive Opens (areas : List Bytes) : List Bytes → Prop where
  | none : Opens areas []
  | header {h a : Bytes} {rest : List Bytes} (header : has_audio_extension h = false)
    (audio : has_audio_extension a = true) : Opens areas (h :: a :: rest)
  | bare {a : Bytes} {rest : List Bytes} (empty : areas = []) (audio : has_audio_extension a = true) :
    Opens areas (a :: rest)

section Proof

variable {entries areas music rest : List Bytes} {a : Bytes}

theorem fold_silent (silent : Silent entries) (areas : List Bytes) :
    entries.foldl step ⟨areas, [], false⟩ = ⟨areas ++ entries, [], false⟩ := by
  induction entries generalizing areas with
  | nil => simp
  | cons e entries ih =>
    have quiet := silent e List.mem_cons_self
    have next : step ⟨areas, [], false⟩ e = ⟨areas ++ [e], [], false⟩ := by simp [step, quiet]
    rw [List.foldl_cons, next, ih fun f member => silent f (List.mem_cons_of_mem e member)]
    simp

theorem fold_music (areas tracks : List Bytes) :
    rest.foldl step ⟨areas, tracks, true⟩ = ⟨areas, tracks ++ rest, true⟩ := by
  induction rest generalizing tracks with
  | nil => simp
  | cons e rest ih =>
    have next : step ⟨areas, tracks, true⟩ e = ⟨areas, tracks ++ [e], true⟩ := rfl
    rw [List.foldl_cons, next, ih]
    simp

theorem handle_silent (silent : Silent entries) : handle .CONNECTED entries = some (entries, []) := by
  simp [handle, fold_silent silent]

/-- The first audio file takes the entry in front of it along. -/
theorem handle_audio (silent : Silent entries) (audio : has_audio_extension a = true) :
    handle .CONNECTED (entries ++ a :: rest) = some (entries.dropLast, entries.getLast?.toList ++ a :: rest) := by
  have next : step ⟨entries, [], false⟩ a = ⟨entries.dropLast, entries.getLast?.toList ++ [a], true⟩ := by
    simp [step, audio]
  have start := fold_silent silent []
  rw [List.nil_append] at start
  simp only [handle, ne_eq, not_true_eq_false, if_false, List.foldl_append, start, List.foldl_cons, next, fold_music]
  simp

/-- A list is silent or has a first audio file. -/
theorem silent_or_first (entries : List Bytes) :
    Silent entries ∨ ∃ front a rest, entries = front ++ a :: rest ∧ Silent front ∧ has_audio_extension a = true := by
  induction entries with
  | nil => exact .inl (List.forall_mem_nil _)
  | cons e entries ih =>
    cases audio : has_audio_extension e with
    | true => exact .inr ⟨[], e, entries, rfl, List.forall_mem_nil _, audio⟩
    | false =>
      rcases ih with silent | ⟨front, a, rest, rfl, silent, found⟩
      · exact .inl (List.forall_mem_cons.mpr ⟨audio, silent⟩)
      · exact .inr ⟨e :: front, a, rest, rfl, List.forall_mem_cons.mpr ⟨audio, silent⟩, found⟩

theorem split_of_opens (silent : Silent areas) (opens : Opens areas music) :
    handle .CONNECTED (areas ++ music) = some (areas, music) := by
  cases opens with
  | none =>
    rw [List.append_nil]
    exact handle_silent silent
  | @header h a rest header audio =>
    have front : Silent (areas ++ [h]) := List.forall_mem_append.mpr ⟨silent, by simpa using header⟩
    have whole := @handle_audio (areas ++ [h]) rest a front audio
    simpa using whole
  | bare empty audio =>
    subst empty
    exact handle_audio (List.forall_mem_nil _) audio

theorem opens_of_split (split : handle .CONNECTED (areas ++ music) = some (areas, music)) :
    Silent areas ∧ Opens areas music := by
  rcases silent_or_first (areas ++ music) with silent | ⟨front, a, rest, same, silent, audio⟩
  · rw [handle_silent silent] at split
    obtain ⟨_, rfl⟩ := Prod.mk.inj (Option.some.inj split)
    rw [List.append_nil] at silent
    exact ⟨silent, .none⟩
  · rw [same, handle_audio silent audio] at split
    obtain ⟨rfl, rfl⟩ := Prod.mk.inj (Option.some.inj split)
    rcases List.eq_nil_or_concat front with rfl | ⟨areas, h, rfl⟩
    · exact ⟨nofun, .bare rfl audio⟩
    · rw [List.concat_eq_append] at *
      obtain ⟨quiet, header⟩ := List.forall_mem_append.mp silent
      rw [List.dropLast_concat, List.getLast?_concat]
      exact ⟨quiet, .header (header h List.mem_cons_self) audio⟩

/-- The list is taken apart as it was put together exactly when no area looks like an audio file and
the music opens as the client expects. -/
theorem recovers_iff (r : GameRoom) : Recovers r ↔ Silent r.areas ∧ Opens r.areas r.music :=
  ⟨opens_of_split, fun ⟨silent, opens⟩ => split_of_opens silent opens⟩

end Proof

/-- Music in one category without a name. -/
def flat_music : Json := .array [.object [(bytes "songs", .array
  [.object [(bytes "name", .string (bytes "Trial.opus"))], .object [(bytes "name", .string (bytes "Objection.opus"))]])]]

/-- The last area is taken for the header of music without one. -/
theorem flat_music_takes_area :
    ContentConfig.load_music_json flat_music = some [bytes "Trial.opus", bytes "Objection.opus"] ∧
      ¬ Recovers {
        areas := [bytes "0:Lobby", bytes "1:Courtroom 1"].map ContentConfig.area_name
        music := [bytes "Trial.opus", bytes "Objection.opus"] } := by
  refine ⟨by decide +kernel, fun recovers => ?_⟩
  have taken : handle .CONNECTED [bytes "Lobby", bytes "Courtroom 1", bytes "Trial.opus", bytes "Objection.opus"] =
      some ([bytes "Lobby"], [bytes "Courtroom 1", bytes "Trial.opus", bytes "Objection.opus"]) := by decide +kernel
  have areas := (Prod.mk.inj (Option.some.inj (taken.symm.trans recovers))).1
  exact absurd areas (by decide +kernel)

end AOPacketSM

end AoSdl
