import AoSdl.AssetLibrary
import AoSdl.Lib.Bindings
import AoSdl.Lib.Fields

/-! The emotes of a character and their sounds. The emotes that a `char.ini` has are put one behind another, and
the sounds go to the places whose numbers are the keys of the sound sections. -/
namespace AoSdl

open Lib.Bindings Lib.Fields

/-- The conversion to `int` of what `strtol` makes of the text. -/
def atoi (s : Bytes) : ℤ := wrap32 (max (-2 ^ 63) (min (2 ^ 63 - 1) ((Lib.Decimal.read s).getD 0)))

/-- A document with the order in which the maps of its sections are walked through. -/
structure OrderedIni where
  ini : IniDocument
  entries : Bytes → List (Bytes × Bytes)
  lists : ∀ name, Lists (ini name) (entries name)

structure AOEmoteEntry where
  comment : Bytes := []
  pre_anim : Bytes := []
  anim_name : Bytes := []
  mod : ℤ := 0
  desk_mod : ℤ := 0
  sfx_name : Bytes := []
  sfx_delay : ℤ := 0
  sfx_looping : Bool := false

namespace AOCharacterSheet

/-- `Comment#PreAnim#AnimName#Mod#DeskMod`, or a beginning of it. -/
def parse_emote (line : Bytes) : AOEmoteEntry :=
  match splitFirst '#'.toUInt8 line with
  | none => { comment := line }
  | some (comment, line) =>
    match splitFirst '#'.toUInt8 line with
    | none => { comment := comment, pre_anim := line }
    | some (pre_anim, line) =>
      match splitFirst '#'.toUInt8 line with
      | none => { comment := comment, pre_anim := pre_anim, anim_name := line }
      | some (anim_name, line) =>
        match splitFirst '#'.toUInt8 line with
        | none => { comment := comment, pre_anim := pre_anim, anim_name := anim_name, mod := atoi line }
        | some (mod, line) =>
          { comment := comment, pre_anim := pre_anim, anim_name := anim_name, mod := atoi mod, desk_mod := atoi line }

/-- One of the sections of sounds: which of its values count, what they say, and where that goes. -/
structure SoundSection (β : Type) where
  name : Bytes
  accepts : Bytes → Bool
  read : Bytes → β
  none : β
  get : AOEmoteEntry → β
  set : β → AOEmoteEntry → AOEmoteEntry
  get_set : ∀ v e, get (set v e) = v
  get_parse_emote : ∀ line, get (parse_emote line) = none

theorem parse_emote_silent (line : Bytes) :
    (parse_emote line).sfx_name = [] ∧ (parse_emote line).sfx_delay = 0 ∧ (parse_emote line).sfx_looping = false := by
  fun_cases parse_emote line <;> exact ⟨rfl, rfl, rfl⟩

def SoundN : SoundSection Bytes where
  name := bytes "SoundN"
  accepts val := val ≠ bytes "0" && val ≠ bytes "1"
  read val := val
  none := []
  get e := e.sfx_name
  set name e := { e with sfx_name := name }
  get_set _ _ := rfl
  get_parse_emote line := (parse_emote_silent line).1

def SoundT : SoundSection ℤ where
  name := bytes "SoundT"
  accepts _ := true
  read val := atoi val
  none := 0
  get e := e.sfx_delay
  set delay e := { e with sfx_delay := delay }
  get_set _ _ := rfl
  get_parse_emote line := (parse_emote_silent line).2.1

def SoundL : SoundSection Bool where
  name := bytes "SoundL"
  accepts _ := true
  read val := val = bytes "1"
  none := false
  get e := e.sfx_looping
  set looping e := { e with sfx_looping := looping }
  get_set _ _ := rfl
  get_parse_emote line := (parse_emote_silent line).2.2

section

variable (d : OrderedIni)

/-- The section, under its name or the name in lower case. -/
def find_section (name : Bytes) : Option Bytes :=
  if d.entries name ≠ [] then some name
  else if d.entries (name.map tolower) ≠ [] then some (name.map tolower)
  else none

/-- The value of a key, if there are the section and the key. -/
def value (name key : Bytes) : Option Bytes := (find_section d name).bind fun s => d.ini s key

def count : ℤ := ((value d (bytes "Emotions") (bytes "number")).map atoi).getD 0

def numbers : List ℕ := (List.range (count d).toNat).map (· + 1)

/-- `none` is a loop whose counter leaves `int`. -/
def parse_emotes : Option (List AOEmoteEntry) :=
  if count d = 2 ^ 31 - 1 then none
  else some ((numbers d).filterMap fun i : ℕ => (value d (bytes "Emotions") (to_string i)).map parse_emote)

variable {β : Type} (σ : SoundSection β)

/-- The place among the emotes that the key of a line gives, where its value counts. -/
def Reaches (line : Bytes × Bytes) (place : ℕ) : Prop := atoi line.1 - 1 = place ∧ σ.accepts line.2 = true

instance (line : Bytes × Bytes) (place : ℕ) : Decidable (Reaches σ line place) := instDecidableAnd

def set_sound (emotes : List AOEmoteEntry) (line : Bytes × Bytes) : List AOEmoteEntry :=
  let idx := atoi line.1 - 1
  if 0 ≤ idx ∧ idx < emotes.length ∧ σ.accepts line.2 = true then emotes.modify idx.toNat (σ.set (σ.read line.2))
  else emotes

def lines : List (Bytes × Bytes) := ((find_section d σ.name).map d.entries).getD []

def parse_section (emotes : List AOEmoteEntry) : List AOEmoteEntry := (lines d σ).foldl (set_sound σ) emotes

def parse_sounds (emotes : List AOEmoteEntry) : List AOEmoteEntry :=
  parse_section d SoundL (parse_section d SoundT (parse_section d SoundN emotes))

/-- The indices of the emotes that there are. -/
def indices : List ℕ := (numbers d).filter fun i : ℕ => (value d (bytes "Emotions") (to_string i)).isSome

/-- What the section has under the key of an index. -/
def given (i : ℕ) : β :=
  match value d σ.name (to_string i) with
  | some val => if σ.accepts val then σ.read val else σ.none
  | none => σ.none

/-- What the lines have under all keys whose number is that of a place. -/
def values (lines : List (Bytes × Bytes)) (place : ℕ) : List β :=
  lines.filterMap fun line => if Reaches σ line place then some (σ.read line.2) else none

/-- The emote of an index has what the section gives for this index. -/
def Carries (emotes : List AOEmoteEntry) : Prop :=
  ∀ (place : ℕ) i, (indices d)[place]? = some i → emotes[place]?.map σ.get = some (given d σ i)

/-- The emotes are those of the indices, each with its own sounds. -/
def Attached : Prop :=
  ∃ emotes, (parse_emotes d).map (parse_sounds d) = some emotes ∧ emotes.length = (indices d).length ∧
    Carries d SoundN emotes ∧ Carries d SoundT emotes ∧ Carries d SoundL emotes

/-- The section has nothing else for the place of an emote than for its index. -/
def Agrees : Prop :=
  ∀ (place : ℕ) i, (indices d)[place]? = some i →
    (∀ v ∈ values σ (lines d σ) place, v = given d σ i) ∧
    (values σ (lines d σ) place = [] → given d σ i = σ.none)

end

/-! ### One section -/

section

variable {β γ : Type} (σ : SoundSection β) (emotes : List AOEmoteEntry)

theorem set_sound_getElem? (line : Bytes × Bytes) (place : ℕ) :
    (set_sound σ emotes line)[place]? =
      if Reaches σ line place then emotes[place]?.map (σ.set (σ.read line.2)) else emotes[place]? := by
  simp only [set_sound]
  split
  · next inside =>
    rw [List.getElem?_modify]
    by_cases here : atoi line.1 - 1 = place
    · have reached : Reaches σ line place := ⟨here, inside.2.2⟩
      rw [if_pos reached, here, Int.toNat_natCast]
      simp
    · have unreached : ¬Reaches σ line place := fun reached => here reached.1
      have elsewhere : ¬(atoi line.1 - 1).toNat = place := by omega
      simp only [if_neg unreached, if_neg elsewhere]
      exact Option.map_id'
  · next outside =>
    split
    · next reached =>
      have beyond : emotes.length ≤ place := by
        by_contra before
        have here : atoi line.1 - 1 = place := reached.1
        exact outside ⟨by omega, by omega, reached.2⟩
      rw [List.getElem?_eq_none beyond]
      rfl
    · rfl

theorem length_set_sound (line : Bytes × Bytes) : (set_sound σ emotes line).length = emotes.length := by
  unfold set_sound
  simp only
  split
  · apply List.length_modify
  · rfl

theorem length_foldl (lines : List (Bytes × Bytes)) :
    (lines.foldl (set_sound σ) emotes).length = emotes.length := by
  induction lines generalizing emotes with
  | nil => rfl
  | cons line lines ih => exact (ih _).trans (length_set_sound σ emotes line)

/-- The last line for a place says what the emote there has. -/
theorem get_foldl (lines : List (Bytes × Bytes)) (place : ℕ) :
    (lines.foldl (set_sound σ) emotes)[place]?.map σ.get =
      emotes[place]?.map fun e => (values σ lines place).getLast?.getD (σ.get e) := by
  induction lines generalizing emotes with
  | nil => rfl
  | cons line lines ih =>
    rw [List.foldl_cons, ih, set_sound_getElem?]
    by_cases reached : Reaches σ line place
    · have shape : values σ (line :: lines) place = σ.read line.2 :: values σ lines place := by
        simp [values, reached]
      rw [if_pos reached, shape, List.getLast?_cons, Option.map_map]
      congr 1
      funext e
      exact congrArg _ (σ.get_set _ e)
    · have shape : values σ (line :: lines) place = values σ lines place := by
        simp [values, reached]
      rw [if_neg reached, shape]

theorem other_foldl (τ : SoundSection γ) (apart : ∀ v e, τ.get (σ.set v e) = τ.get e)
    (lines : List (Bytes × Bytes)) (place : ℕ) :
    (lines.foldl (set_sound σ) emotes)[place]?.map τ.get = emotes[place]?.map τ.get := by
  induction lines generalizing emotes with
  | nil => rfl
  | cons line lines ih =>
    rw [List.foldl_cons, ih, set_sound_getElem?]
    split
    · rw [Option.map_map]
      congr 1
      funext e
      exact apart _ e
    · rfl

end

/-! ### All sections -/

section

variable (d : OrderedIni) {β : Type} (σ : SoundSection β)

/-- The value that the last line for a place has. -/
def last (place : ℕ) : β := (values σ (lines d σ) place).getLast?.getD σ.none

theorem filterMap_value (f : ℕ → Option Bytes) (numbers : List ℕ) :
    (numbers.filterMap fun i => (f i).map parse_emote) =
      (numbers.filter fun i => (f i).isSome).map fun i => parse_emote ((f i).getD []) := by
  induction numbers with
  | nil => rfl
  | cons i numbers ih =>
    cases found : f i with
    | none => simp [found, ih]
    | some line => simp [found, ih]

theorem parse_emotes_eq (defined : count d ≠ 2 ^ 31 - 1) :
    parse_emotes d = some ((indices d).map fun i : ℕ =>
      parse_emote ((value d (bytes "Emotions") (to_string i)).getD [])) := by
  rw [parse_emotes, if_neg defined, filterMap_value]
  rfl

variable {d}

theorem parse_emotes_get {emotes : List AOEmoteEntry} (parsed : parse_emotes d = some emotes) (place : ℕ) :
    emotes[place]?.map σ.get = (indices d)[place]?.map fun _ => σ.none := by
  have defined : count d ≠ 2 ^ 31 - 1 := by
    intro full
    rw [parse_emotes, if_pos full] at parsed
    contradiction
  rw [parse_emotes_eq d defined, Option.some.injEq] at parsed
  subst parsed
  rw [List.getElem?_map, Option.map_map]
  congr 1
  funext i
  exact σ.get_parse_emote _

theorem parse_section_get {emotes : List AOEmoteEntry}
    (silent : ∀ place : ℕ, emotes[place]?.map σ.get = (indices d)[place]?.map fun _ => σ.none) (place : ℕ) :
    (parse_section d σ emotes)[place]?.map σ.get = (indices d)[place]?.map fun _ => last d σ place := by
  have parsed := get_foldl σ emotes (lines d σ) place
  have before := silent place
  rw [parse_section, parsed]
  cases emote : emotes[place]? with
  | none =>
    rw [emote] at before
    cases index : (indices d)[place]? with
    | none => rfl
    | some i => rw [index] at before; contradiction
  | some e =>
    rw [emote] at before
    cases index : (indices d)[place]? with
    | none => rw [index] at before; contradiction
    | some i =>
      rw [index, Option.map_some, Option.map_some, Option.some.injEq] at before
      rw [Option.map_some, Option.map_some, before]
      rfl

theorem length_parse_section (emotes : List AOEmoteEntry) :
    (parse_section d σ emotes).length = emotes.length := length_foldl σ emotes _

theorem parse_section_other {γ : Type} (τ : SoundSection γ) (apart : ∀ v e, τ.get (σ.set v e) = τ.get e)
    (emotes : List AOEmoteEntry) (place : ℕ) :
    (parse_section d σ emotes)[place]?.map τ.get = emotes[place]?.map τ.get :=
  other_foldl σ emotes τ apart _ place

/-- Each section says what its field has, and leaves the fields of the others. -/
theorem parse_sounds_get {emotes : List AOEmoteEntry} (parsed : parse_emotes d = some emotes) (place : ℕ) :
    (parse_sounds d emotes)[place]?.map SoundN.get = (indices d)[place]?.map (fun _ => last d SoundN place) ∧
    (parse_sounds d emotes)[place]?.map SoundT.get = (indices d)[place]?.map (fun _ => last d SoundT place) ∧
    (parse_sounds d emotes)[place]?.map SoundL.get = (indices d)[place]?.map (fun _ => last d SoundL place) := by
  refine ⟨?_, ?_, ?_⟩
  · rw [parse_sounds, parse_section_other SoundL SoundN fun _ _ => rfl,
      parse_section_other SoundT SoundN fun _ _ => rfl]
    apply parse_section_get
    exact parse_emotes_get SoundN parsed
  · rw [parse_sounds, parse_section_other SoundL SoundT fun _ _ => rfl]
    apply parse_section_get
    intro place
    rw [parse_section_other SoundN SoundT fun _ _ => rfl]
    exact parse_emotes_get SoundT parsed place
  · apply parse_section_get
    intro place
    rw [parse_section_other SoundT SoundL fun _ _ => rfl, parse_section_other SoundN SoundL fun _ _ => rfl]
    exact parse_emotes_get SoundL parsed place

/-- The last line of each place has what is given for its index. -/
def Ends (d : OrderedIni) (σ : SoundSection β) : Prop :=
  ∀ (place : ℕ) i, (indices d)[place]? = some i → last d σ place = given d σ i

theorem carries_iff {emotes : List AOEmoteEntry}
    (carried : ∀ place : ℕ, emotes[place]?.map σ.get = (indices d)[place]?.map fun _ => last d σ place) :
    Carries d σ emotes ↔ Ends d σ := by
  refine forall_congr' fun place => forall_congr' fun i => forall_congr' fun index => ?_
  rw [carried place, index, Option.map_some, Option.some.injEq]

theorem attached_iff_ends :
    Attached d ↔ count d ≠ 2 ^ 31 - 1 ∧ Ends d SoundN ∧ Ends d SoundT ∧ Ends d SoundL := by
  by_cases full : count d = 2 ^ 31 - 1
  · rw [Attached, parse_emotes, if_pos full]
    simp [full]
  · have parsed := parse_emotes_eq d full
    have carried := parse_sounds_get parsed
    rw [Attached, parsed]
    simp only [Option.map_some, Option.some.injEq, exists_eq_left']
    rw [carries_iff SoundN fun place => (carried place).1, carries_iff SoundT fun place => (carried place).2.1,
      carries_iff SoundL fun place => (carried place).2.2, and_iff_right full]
    apply and_iff_right
    simp only [parse_sounds, length_parse_section, List.length_map]

/-! ### The order of the maps -/

variable {σ} {d' : OrderedIni}

theorem find_section_congr (same : d'.ini = d.ini) (name : Bytes) : find_section d' name = find_section d name := by
  have empty : ∀ name, d'.entries name = [] ↔ d.entries name = [] := by
    intro name
    rw [(d'.lists name).eq_nil_iff, (d.lists name).eq_nil_iff, same]
  simp only [find_section, ne_eq, empty]

theorem value_congr (same : d'.ini = d.ini) (name key : Bytes) : value d' name key = value d name key := by
  rw [value, value, find_section_congr same, same]

theorem count_congr (same : d'.ini = d.ini) : count d' = count d := by
  rw [count, count, value_congr same]

theorem indices_congr (same : d'.ini = d.ini) : indices d' = indices d := by
  simp only [indices, numbers, count_congr same, value_congr same]

theorem given_congr (same : d'.ini = d.ini) (i : ℕ) : given d' σ i = given d σ i := by
  rw [given, given, value_congr same]

theorem lines_perm (same : d'.ini = d.ini) : (lines d' σ).Perm (lines d σ) := by
  rw [lines, lines, find_section_congr same]
  cases find_section d σ.name with
  | none => exact .refl []
  | some s =>
    have listed := d'.lists s
    rw [same] at listed
    exact listed.perm (d.lists s)

/-- Some order of the maps has a line of the section at its end. -/
theorem exists_last {line : Bytes × Bytes} (inside : line ∈ lines d σ) :
    ∃ d' : OrderedIni, d'.ini = d.ini ∧ ∃ before, lines d' σ = before ++ [line] := by
  rw [lines] at inside
  cases found : find_section d σ.name with
  | none =>
    rw [found] at inside
    contradiction
  | some s =>
    rw [found] at inside
    obtain ⟨before, after, shape⟩ := List.append_of_mem (show line ∈ d.entries s from inside)
    have moved : (d.entries s).Perm (before ++ after ++ [line]) := by
      rw [shape]
      exact List.perm_middle.trans (List.perm_append_singleton line (before ++ after)).symm
    let d' : OrderedIni :=
      { ini := d.ini
        entries := Function.update d.entries s (before ++ after ++ [line])
        lists := by
          intro name
          by_cases here : name = s
          · subst here
            rw [Function.update_self]
            exact (d.lists name).of_perm moved
          · rw [Function.update_of_ne here]
            exact d.lists name }
    refine ⟨d', rfl, before ++ after, ?_⟩
    have same : d'.ini = d.ini := rfl
    rw [lines, find_section_congr same, found]
    exact Function.update_self s _ d.entries

theorem values_append (before after : List (Bytes × Bytes)) (place : ℕ) :
    values σ (before ++ after) place = values σ before place ++ values σ after place := List.filterMap_append

/-- Whatever the order is, each place ends with what is given, exactly when the section agrees. -/
theorem ends_iff : (∀ d' : OrderedIni, d'.ini = d.ini → Ends d' σ) ↔ Agrees d σ := by
  constructor
  · intro ends place i index
    constructor
    · intro v member
      obtain ⟨line, inside, reads⟩ := List.mem_filterMap.mp member
      obtain ⟨reached, value⟩ := Option.ite_none_right_eq_some.mp reads
      obtain rfl := Option.some.inj value
      obtain ⟨d', same, before, shape⟩ := exists_last inside
      have tail : values σ [line] place = [σ.read line.2] := by
        simp [values, reached]
      have final : last d' σ place = σ.read line.2 := by
        rw [last, shape, values_append, tail]
        simp
      rw [← given_congr same, ← final]
      exact ends d' same place i (by rw [indices_congr same]; exact index)
    · intro empty
      have final := ends d rfl place i index
      rw [last, empty] at final
      exact final.symm
  · intro agrees d' same place i index
    rw [indices_congr same] at index
    obtain ⟨only, silent⟩ := agrees place i index
    have perm : (values σ (lines d' σ) place).Perm (values σ (lines d σ) place) :=
      (lines_perm same).filterMap _
    rw [given_congr same, last]
    cases final : (values σ (lines d' σ) place).getLast? with
    | none =>
      have empty := List.getLast?_eq_none_iff.mp final
      rw [empty] at perm
      exact (silent perm.nil_eq.symm).symm
    | some v => exact only v (perm.mem_iff.mp (List.mem_of_getLast? final))

/-- The sounds stay with their emotes in every order of the maps exactly when the loop over the indices ends and
no section has, for the place of an emote, anything but what it has for the index of the emote. -/
theorem sounds_attached_iff (d : OrderedIni) :
    (∀ d' : OrderedIni, d'.ini = d.ini → Attached d') ↔
      count d ≠ 2 ^ 31 - 1 ∧ Agrees d SoundN ∧ Agrees d SoundT ∧ Agrees d SoundL := by
  rw [← ends_iff, ← ends_iff, ← ends_iff]
  constructor
  · intro attached
    have ends := fun d' same => attached_iff_ends.mp (attached d' same)
    exact ⟨(ends d rfl).1, fun d' same => (ends d' same).2.1, fun d' same => (ends d' same).2.2.1,
      fun d' same => (ends d' same).2.2.2⟩
  · rintro ⟨defined, names, delays, loops⟩ d' same
    apply attached_iff_ends.mpr
    rw [count_congr same]
    exact ⟨defined, names d' same, delays d' same, loops d' same⟩

end

/-! ### Files -/

/-- A line sets one key of the section or nothing. -/
theorem parse_line_cases (state : Bytes × IniDocument) (line : Bytes) :
    (AssetLibrary.parse_line state line).2 = state.2 ∨ ∃ key val, (AssetLibrary.parse_line state line).2 =
      Function.update state.2 state.1 (Function.update (state.2 state.1) key (some val)) := by
  obtain ⟨current_section, doc⟩ := state
  simp only [AssetLibrary.parse_line]
  split
  · exact .inl rfl
  · split_ifs
    · exact .inl rfl
    · exact .inl rfl
    · exact .inl rfl
    · exact .inr ⟨_, _, rfl⟩
    · exact .inr ⟨_, _, rfl⟩
    · exact .inl rfl

theorem parse_line_lists {state : Bytes × IniDocument} (listed : ∀ name, ∃ entries, Lists (state.2 name) entries)
    (line name : Bytes) : ∃ entries, Lists ((AssetLibrary.parse_line state line).2 name) entries := by
  rcases parse_line_cases state line with same | ⟨key, val, shape⟩
  · rw [same]
    exact listed name
  · rw [shape]
    by_cases here : name = state.1
    · obtain ⟨entries, lists⟩ := listed state.1
      rw [here, Function.update_self]
      exact ⟨_, lists.set key val⟩
    · rw [Function.update_of_ne here]
      exact listed name

theorem exists_ordered (data : Bytes) : ∃ d : OrderedIni, d.ini = AssetLibrary.parse_ini data := by
  have listed : ∀ (text : List Bytes) (state : Bytes × IniDocument),
      (∀ name, ∃ entries, Lists (state.2 name) entries) →
      ∀ name, ∃ entries, Lists ((text.foldl AssetLibrary.parse_line state).2 name) entries := by
    intro text
    induction text with
    | nil => exact fun _ listed => listed
    | cons line text ih => exact fun state listed => ih _ (parse_line_lists listed line)
  choose entries lists using listed (data.splitOn 10) ([], fun _ _ => none) fun _ => ⟨[], lists_nil⟩
  exact ⟨⟨AssetLibrary.parse_ini data, entries, lists⟩, rfl⟩

theorem find_section_of_bound {d : OrderedIni} {name key val : Bytes} (bound : d.ini name key = some val) :
    find_section d name = some name := by
  have present : d.entries name ≠ [] := by
    intro empty
    rw [(d.lists name).eq_nil_iff.mp empty key] at bound
    contradiction
  rw [find_section, if_pos present]

/-- Two emotes are announced, and the second has a sound. -/
def second_only : Bytes := bytes "[Emotions]\nnumber=2\n2=b#-#b#0#1\n[SoundN]\n2=ding\n"

/-- Where the first emote is missing, the second is the first one, and its sound is for the place behind it. -/
theorem first_emote_missing : ¬∀ d : OrderedIni, d.ini = AssetLibrary.parse_ini second_only → Attached d := by
  intro attached
  obtain ⟨d, parsed⟩ := exists_ordered second_only
  have emotions : find_section d (bytes "Emotions") = some (bytes "Emotions") := by
    have bound : d.ini (bytes "Emotions") (bytes "number") = some (bytes "2") := by
      rw [parsed]
      decide
    exact find_section_of_bound bound
  have sounds : find_section d SoundN.name = some SoundN.name := by
    have bound : d.ini SoundN.name (bytes "2") = some (bytes "ding") := by
      rw [parsed]
      decide
    exact find_section_of_bound bound
  have two : count d = 2 := by
    rw [count, value, emotions, parsed]
    decide
  have second : indices d = [2] := by
    simp only [indices, numbers, two, value, emotions, parsed]
    decide
  have ding : given d SoundN 2 = bytes "ding" := by
    simp only [given, value, sounds, parsed]
    decide
  have only : lines d SoundN = [(bytes "2", bytes "ding")] := by
    have listed := d.lists SoundN.name
    have bindings : d.ini SoundN.name = Function.update (fun _ => none) (bytes "2") (some (bytes "ding")) := by
      rw [parsed]
      rfl
    rw [bindings] at listed
    rw [lines, sounds]
    exact List.perm_singleton.mp (listed.perm (lists_nil.set (bytes "2") (bytes "ding")))
  have ends := (attached_iff_ends.mp (attached d parsed)).2.1 0 2 (by rw [second]; rfl)
  rw [last, only, ding] at ends
  revert ends
  decide

end AOCharacterSheet

end AoSdl
