import AoSdl.TextBoxProgress
import AoSdl.TextEscapes
import AoSdl.Lib.Runs

/-! The effects of a message: which of them its text asks for, and how the ticks report them. A text box that has
nothing to show is at its end from the start, and no tick looks at its events. -/
namespace AoSdl

open Lib.Runs

namespace AOTextProcessor

/-- What a message asks for besides its text. -/
inductive InlineEffect where
  | screenshake
  | flash
deriving DecidableEq

def inline_effect (e : TextEvent) : Option InlineEffect :=
  match e.type with
  | .screenshake => some .screenshake
  | .flash => some .flash
  | _ => none

def effects (events : List TextEvent) : List InlineEffect := events.filterMap inline_effect

@[simp] theorem effects_nil : effects [] = [] := rfl

@[simp] theorem effects_append (l l' : List TextEvent) : effects (l ++ l') = effects l ++ effects l' :=
  List.filterMap_append

/-- The markers of the effects in a text. A backslash takes the byte behind it. -/
def markers : Bytes → List InlineEffect
  | [] => []
  | c :: s =>
    if c = '\\'.toUInt8 then
      match s with
      | [] => []
      | next :: s =>
        if next = 's'.toUInt8 then .screenshake :: markers s
        else if next = 'f'.toUInt8 then .flash :: markers s
        else markers s
    else markers s

/-- Bytes that have no backslash. -/
def Clean (s : Bytes) : Prop := '\\'.toUInt8 ∉ s

instance : DecidablePred Clean := fun s => inferInstanceAs (Decidable ('\\'.toUInt8 ∉ s))

/-- No sequence of the text takes a backslash for one of its later bytes. -/
def Clear (s : Bytes) : Prop := ∀ c r, c :: r <:+ s → Clean (r.take (UTF8.extra c))

/-- No markup of the colors has a backslash. -/
def CleanMarkup (colors : List AOTextColorDef) : Prop :=
  ∀ color ∈ colors, Clean color.markup_start ∧ Clean color.markup_end

theorem Clear.suffix {s r : Bytes} (clear : Clear s) (later : r <:+ s) : Clear r :=
  fun c q inside => clear c q (inside.trans later)

theorem Clear.cons {c : UInt8} {s : Bytes} (clear : Clear s) (clean : Clean (s.take (UTF8.extra c))) : Clear (c :: s) := by
  intro d r inside
  rcases List.suffix_cons_iff.mp inside with same | later
  · obtain ⟨rfl, rfl⟩ := List.cons.inj same
    exact clean
  · exact clear d r later

theorem Clear.marked {later s : Bytes} (marked : ∀ b ∈ later, Lib.Utf8.Marked b) (clear : Clear s) :
    Clear (later ++ s) := by
  induction later with
  | nil => exact clear
  | cons b later ih =>
    obtain ⟨first, rest⟩ := List.forall_mem_cons.mp marked
    apply (ih rest).cons
    rw [extra_eq_width, Lib.Utf8.width_of_marked first]
    exact List.not_mem_nil

/-- A text in UTF-8 is clear: the later bytes of a character are marked, and start nothing. -/
theorem clear_encode (t : List Char) : Clear (Lib.Utf8.encode t) := by
  induction t with
  | nil =>
    intro c r inside
    have empty := List.suffix_nil.mp inside
    contradiction
  | cons d t ih =>
    obtain ⟨b, later, shape, -, size, marked⟩ := Lib.Utf8.encodeChar_shape d
    rw [Lib.Utf8.encode_cons, shape]
    apply (ih.marked marked).cons
    rw [extra_eq_width, size, Nat.add_sub_cancel, List.take_left]
    intro backslash
    have unmarked : ¬Lib.Utf8.Marked '\\'.toUInt8 := by decide
    exact unmarked (marked _ backslash)

theorem markers_cons {c : UInt8} (other : c ≠ '\\'.toUInt8) (s : Bytes) : markers (c :: s) = markers s := by
  rw [markers.eq_def]
  exact if_neg other

theorem markers_append {l : Bytes} (clean : Clean l) (s : Bytes) : markers (l ++ s) = markers s := by
  induction l with
  | nil => rfl
  | cons c l ih =>
    rw [Clean, List.mem_cons, not_or] at clean
    rw [List.cons_append, markers_cons (Ne.symm clean.1), ih clean.2]

namespace Scan

variable {colors : List AOTextColorDef} (base_color : ℤ)

theorem effects_push_color (s : Scan) (color_idx : ℤ) :
    effects (s.push .color_change color_idx).events = effects s.events := by
  simp [push, effects, inline_effect]

theorem effects_start_color (s : Scan) (color : AOTextColorDef) (ci : ℕ) :
    effects (s.start_color base_color color ci).events = effects s.events := by
  rw [start_color]
  split
  · split
    · exact effects_push_color ..
    · rfl
  · exact effects_push_color ..

/-- What the colors do: no effect, and some markup at most is taken. -/
structure Matched (entries : List (AOTextColorDef × ℕ)) (s : Scan) (found : Scan × Bool) : Prop where
  effects : effects found.1.events = effects s.events
  kept : found.2 = false → found.1.rest = s.rest
  taken : found.2 = true → ∃ markup, markup ≠ [] ∧ s.rest = markup ++ found.1.rest ∧
    ∃ entry ∈ entries, markup = entry.1.markup_start ∨ markup = entry.1.markup_end

theorem Matched.later {entry : AOTextColorDef × ℕ} {entries : List (AOTextColorDef × ℕ)} {s s' : Scan}
    {found : Scan × Bool} (matched : Matched entries s' found)
    (silent : AOTextProcessor.effects s'.events = AOTextProcessor.effects s.events) (same : s'.rest = s.rest) :
    Matched (entry :: entries) s found where
  effects := matched.effects.trans silent
  kept none := (matched.kept none).trans same
  taken some := by
    obtain ⟨markup, named, shape, other, member, text⟩ := matched.taken some
    exact ⟨markup, named, same ▸ shape, other, List.mem_cons_of_mem entry member, text⟩

theorem match_colors_matched (entries : List (AOTextColorDef × ℕ)) (s : Scan) :
    Matched entries s (match_colors base_color entries s) := by
  induction entries generalizing s with
  | nil => exact ⟨rfl, fun _ => rfl, fun some => absurd some (by simp [match_colors])⟩
  | cons entry entries ih =>
    have started := effects_start_color base_color s entry.1 entry.2
    have ended := effects_push_color { s with active_inline_color := none } base_color
    rw [match_colors]
    split
    · exact (ih s).later rfl rfl
    · next named =>
      split
      · next found =>
        split
        · refine ⟨started, fun none => absurd none (by simp), fun _ => ⟨entry.1.markup_start, named, ?_, entry,
            List.mem_cons_self, .inl rfl⟩⟩
          simp only [advance, start_color_rest]
          exact List.prefix_iff_eq_append.mp found |>.symm
        · exact (ih _).later started (start_color_rest ..)
      · split
        · next found =>
          have named : entry.1.markup_end ≠ [] := fun none => found.1 (.inl none)
          split
          · refine ⟨ended, fun none => absurd none (by simp), fun _ => ⟨entry.1.markup_end, named, ?_, entry,
              List.mem_cons_self, .inr rfl⟩⟩
            exact List.prefix_iff_eq_append.mp found.2.2 |>.symm
          · exact (ih _).later ended rfl
        · exact (ih s).later rfl rfl

variable (clean : CleanMarkup colors)

include clean

/-- A character or color markup has no effect, and no marker behind its first byte is lost. -/
theorem plain_markers {s : Scan} {c : UInt8} {after : Bytes} (next : s.rest = c :: after)
    (text : Clean (after.take (UTF8.extra c))) :
    effects (s.plain colors base_color).events = effects s.events ∧
      markers (s.plain colors base_color).rest = markers after ∧ (s.plain colors base_color).rest <:+ after := by
  have matched := match_colors_matched base_color colors.zipIdx s
  rw [plain]
  generalize match_colors base_color colors.zipIdx s = found at matched
  rcases found with ⟨s', _ | _⟩
  · have rest := (matched.kept rfl).trans next
    simp only [append_char_of_cons rest]
    refine ⟨matched.effects, ?_, List.drop_suffix _ after⟩
    have parts := markers_append text (after.drop (UTF8.extra c))
    rw [List.take_append_drop] at parts
    exact parts.symm
  · obtain ⟨markup, named, shape, entry, member, which⟩ := matched.taken rfl
    have member : entry.1 ∈ colors := List.mem_of_getElem? (List.mk_mem_zipIdx_iff_getElem?.mp member)
    have unmarked : Clean markup := by
      rcases which with rfl | rfl
      · exact (clean entry.1 member).1
      · exact (clean entry.1 member).2
    obtain ⟨d, markup, rfl⟩ := List.exists_cons_of_ne_nil named
    rw [next, List.cons_append] at shape
    obtain ⟨rfl, rest⟩ := List.cons.inj shape
    rw [Clean, List.mem_cons, not_or] at unmarked
    refine ⟨matched.effects, ?_, ?_⟩
    · rw [rest, markers_append unmarked.2]
    · rw [rest]
      exact List.suffix_append ..

/-- A turn leaves the effects so far and those of the markers that are left together as they are. -/
theorem step_markers {s : Scan} (clear : Clear s.rest) :
    effects (s.step colors base_color).events ++ markers (s.step colors base_color).rest =
      effects s.events ++ markers s.rest ∧ (s.step colors base_color).rest <:+ s.rest := by
  rw [step]
  split
  · exact ⟨rfl, List.suffix_rfl⟩
  · next c rest next =>
    rw [next] at clear ⊢
    have text := clear c rest List.suffix_rfl
    split
    · next backslash =>
      split
      · obtain ⟨same, left, later⟩ := plain_markers base_color clean next text
        rw [same, left]
        refine ⟨?_, later.trans (List.suffix_cons c [])⟩
        simp [markers]
      · next command after =>
        have behind : after <:+ c :: command :: after := (List.suffix_cons command after).trans (List.suffix_cons _ _)
        have tail := clear.suffix (List.suffix_cons c (command :: after))
        obtain ⟨same, left, later⟩ := plain_markers base_color clean
          (s := { s with rest := command :: after }) rfl (tail command after List.suffix_rfl)
        have shape : markers (c :: command :: after) =
            if command = 's'.toUInt8 then .screenshake :: markers after
            else if command = 'f'.toUInt8 then .flash :: markers after else markers after := by
          rw [markers, if_pos backslash]
        rw [shape, escape]
        by_cases newline : command = 'n'.toUInt8
        · subst newline
          exact ⟨rfl, behind⟩
        · rw [if_neg newline]
          split_ifs
          · exact ⟨by simp [push, effects, inline_effect], behind⟩
          · exact ⟨by simp [push, effects, inline_effect], behind⟩
          · exact ⟨by simp [push, effects, inline_effect], behind⟩
          · rw [same, left]
            exact ⟨rfl, later.trans behind⟩
    · next other =>
      have shape := markers_cons other rest
      rw [shape]
      split
      · exact ⟨by simp [push, effects, inline_effect], List.suffix_cons c rest⟩
      · split
        · exact ⟨by simp [push, effects, inline_effect], List.suffix_cons c rest⟩
        · obtain ⟨same, left, later⟩ := plain_markers base_color clean next text
          rw [same, left]
          exact ⟨rfl, later.trans (List.suffix_cons c rest)⟩

theorem steps_markers {s : Scan} (clear : Clear s.rest) (n : ℕ) :
    effects ((step colors base_color)^[n] s).events ++ markers ((step colors base_color)^[n] s).rest =
      effects s.events ++ markers s.rest := by
  induction n generalizing s with
  | zero => rfl
  | succ n ih =>
    obtain ⟨same, later⟩ := step_markers base_color clean clear
    exact (ih (clear.suffix later)).trans same

end Scan

theorem markers_split_alignment (raw : Bytes) :
    markers (split_alignment raw).2 = markers raw ∧ (split_alignment raw).2 <:+ raw := by
  have dropped : ∀ {l : Bytes}, Clean l → l <+: raw → markers (raw.drop l.length) = markers raw := by
    rintro l clean ⟨rest, rfl⟩
    rw [List.drop_left, markers_append clean]
  rw [split_alignment]
  split_ifs with center right justify
  · exact ⟨dropped (by decide) center, List.drop_suffix ..⟩
  · exact ⟨dropped (by decide) right, List.drop_suffix ..⟩
  · exact ⟨dropped (by decide) justify, List.drop_suffix ..⟩
  · exact ⟨rfl, List.suffix_rfl⟩

theorem process_effects {raw : Bytes} (clear : Clear raw) {colors : List AOTextColorDef} (clean : CleanMarkup colors)
    (base_color : ℤ) : effects (process raw colors base_color).events = markers raw := by
  obtain ⟨same, later⟩ := markers_split_alignment raw
  let start : Scan := ⟨(split_alignment raw).2, none, 0, [], []⟩
  have steps := Scan.steps_markers base_color clean (s := start) (clear.suffix later) start.rest.length
  rw [Scan.steps_rest colors base_color (Nat.le_refl _), markers, List.append_nil, ← same] at *
  exact steps

end AOTextProcessor

namespace AOTextBox

open AOTextProcessor

/-! ### Reports -/

/-- The results report the effects: each is reported once, in order, and a result reports some that stand next to
each other together. -/
def Reported (effects : List InlineEffect) (results : List TickResult) : Prop :=
  ∃ parts : List (List InlineEffect), parts.flatten = effects ∧ parts.Forall₂ (fun part result =>
    result.trigger_screenshake = decide (.screenshake ∈ part) ∧ result.trigger_flash = decide (.flash ∈ part)) results

/-- The results of a sequence of ticks. -/
def results (b : AOTextBox) : List ℕ → List TickResult
  | [] => []
  | delta_ms :: deltas => (b.tick delta_ms).2 :: results (b.tick delta_ms).1 deltas

def ticks (b : AOTextBox) (deltas : List ℕ) : AOTextBox := run (fun b delta_ms => (b.tick delta_ms).1) b deltas

namespace Crawl

/-- The loop has taken the events of some effects and reported them. -/
structure Fired (part : List InlineEffect) (c c' : Crawl) : Prop where
  taken : effects c.box.events = part ++ effects c'.box.events
  screenshake : c'.result.trigger_screenshake = (c.result.trigger_screenshake || decide (.screenshake ∈ part))
  flash : c'.result.trigger_flash = (c.result.trigger_flash || decide (.flash ∈ part))

theorem Fired.refl (c : Crawl) : Fired [] c c := ⟨rfl, by simp, by simp⟩

theorem Fired.trans {part part' : List InlineEffect} {c c' c'' : Crawl} (first : Fired part c c')
    (second : Fired part' c' c'') : Fired (part ++ part') c c'' where
  taken := by rw [first.taken, second.taken, List.append_assoc]
  screenshake := by
    rw [second.screenshake, first.screenshake, Bool.or_assoc]
    simp
  flash := by
    rw [second.flash, first.flash, Bool.or_assoc]
    simp

theorem Fired.handle {c : Crawl} {e : TextEvent} {later : List TextEvent} (here : c.box.events = e :: later) :
    Fired (effects [e]) c (c.handle e later) := by
  rw [Crawl.handle]
  cases type : e.type with
  | _ => exact ⟨by simp [here, effects, inline_effect, type], by simp [effects, inline_effect, type],
      by simp [effects, inline_effect, type]⟩

/-- Where no pause has come, the events that are left are for later characters. -/
theorem consume_fired (events : List TextEvent) (c : Crawl) (here : c.box.events = events)
    (sorted : events.Pairwise (·.char_index ≤ ·.char_index)) :
    (∃ part, Fired part c (consume events c)) ∧ ((consume events c).paused = false →
      ∀ e ∈ (consume events c).box.events, c.box.chars_visible < e.char_index) := by
  induction events generalizing c with
  | nil =>
    rw [consume]
    refine ⟨⟨[], .refl c⟩, fun _ e member => ?_⟩
    rw [here] at member
    contradiction
  | cons e later ih =>
    have fired := Fired.handle here
    rw [consume]
    split
    · split
      · next pause => exact ⟨⟨_, fired⟩, fun going => absurd pause (by simp [going])⟩
      · next going =>
        have visible : (c.handle e later).box.chars_visible = c.box.chars_visible ∧
            (c.handle e later).box.events = later := by
          rw [Crawl.handle]
          cases e.type with
          | _ => exact ⟨rfl, rfl⟩
        obtain ⟨⟨part, rest⟩, behind⟩ := ih (c.handle e later) visible.2 sorted.of_cons
        rw [visible.1] at behind
        exact ⟨⟨_, fired.trans rest⟩, behind⟩
    · next early =>
      refine ⟨⟨[], .refl c⟩, fun _ e' member => ?_⟩
      rw [here] at member
      rcases List.mem_cons.mp member with rfl | behind
      · exact Nat.lt_of_not_le early
      · exact (Nat.lt_of_not_le early).trans_le (List.rel_of_pairwise_cons sorted behind)

/-- The loop reports what it takes, and where it comes to the end it has taken everything. -/
theorem advance_fired (missing : ℕ) (c : Crawl) (ordered : c.box.Ordered) (going : c.paused = false)
    (ticking : c.box.state = .ticking) :
    (∃ part, Fired part c (advance missing c)) ∧
      ((advance missing c).box.state = .done → (advance missing c).box.events = []) := by
  induction missing generalizing c with
  | zero =>
    rw [advance]
    exact ⟨⟨[], .refl c⟩, fun done => by simp [ticking] at done⟩
  | succ missing ih =>
    rw [advance]
    split
    · next more =>
      have consumed := show_char_consumed ordered going
      have ordered' := consumed.ordered (next_char_ordered ordered more.2)
      have state : c.show_char.box.state = .ticking := consumed.state.trans ticking
      obtain ⟨⟨part, rest⟩, behind⟩ := consume_fired c.box.events c.next_char rfl ordered.sorted
      have fired : Fired part c c.show_char := ⟨rest.taken, rest.screenshake, rest.flash⟩
      split
      · exact ⟨⟨part, fired⟩, fun done => by simp [state] at done⟩
      · next still =>
        have still : c.show_char.paused = false := by simpa using still
        split
        · next last =>
          refine ⟨⟨part, fired.taken, fired.screenshake, fired.flash⟩, fun _ => ?_⟩
          apply List.eq_nil_iff_forall_not_mem.mpr
          intro e member
          have beyond := behind still e member
          have within := ordered'.within e member
          have visible : c.show_char.box.chars_visible = c.next_char.box.chars_visible := consumed.visible
          omega
        · obtain ⟨⟨part', rest⟩, ended⟩ := ih c.show_char ordered' still state
          exact ⟨⟨part ++ part', fired.trans rest⟩, ended⟩
    · exact ⟨⟨[], .refl c⟩, fun done => by simp [ticking] at done⟩

end Crawl

/-- At the end no effect is left. -/
structure Spent (b : AOTextBox) : Prop where
  ordered : b.Ordered
  ended : b.state = .done → effects b.events = []

variable {b : AOTextBox}

theorem Spent.tick (spent : b.Spent) (delta_ms : ℕ) : (b.tick delta_ms).1.Spent ∧ ∃ part,
    effects b.events = part ++ effects (b.tick delta_ms).1.events ∧
      (b.tick delta_ms).2.trigger_screenshake = decide (.screenshake ∈ part) ∧
      (b.tick delta_ms).2.trigger_flash = decide (.flash ∈ part) := by
  have ordered := spent.ordered.tick delta_ms
  by_cases ticking : b.state = .ticking
  · rw [AOTextBox.tick, if_neg (not_not.mpr ticking)] at ordered ⊢
    by_cases pause : 0 < b.pause_remaining_ms_
    · rw [if_pos pause] at ordered ⊢
      exact ⟨⟨ordered, spent.ended⟩, [], rfl, by simp, by simp⟩
    · rw [if_neg pause] at ordered ⊢
      obtain ⟨⟨part, fired⟩, ended⟩ := Crawl.advance_fired (b.total_chars - b.chars_visible)
        ⟨{ b with accumulated_ms := b.accumulated_ms + delta_ms }, {}, false⟩
        ⟨spent.ordered.sorted, spent.ordered.within, spent.ordered.visible⟩ rfl ticking
      refine ⟨⟨ordered, fun done => ?_⟩, part, fired.taken, ?_, ?_⟩
      · rw [ended done, effects_nil]
      · rw [fired.screenshake, Bool.false_or]
      · rw [fired.flash, Bool.false_or]
  · rw [AOTextBox.tick, if_pos ticking] at ordered ⊢
    exact ⟨spent, [], rfl, by simp, by simp⟩

/-- The ticks up to the end report the effects that are to come. -/
theorem Spent.reported (spent : b.Spent) {deltas : List ℕ} (done : (b.ticks deltas).state = .done) :
    Reported (effects b.events) (b.results deltas) := by
  induction deltas generalizing b with
  | nil =>
    refine ⟨[], ?_, .nil⟩
    rw [spent.ended done]
    rfl
  | cons delta_ms deltas ih =>
    obtain ⟨spent', part, taken, screenshake, flash⟩ := spent.tick delta_ms
    obtain ⟨parts, rest, same⟩ := ih spent' done
    refine ⟨part :: parts, ?_, .cons ⟨screenshake, flash⟩ same⟩
    rw [List.flatten_cons, rest, taken]

variable (message : Bytes) (color_idx : ℤ) (color_defs : List AOTextColorDef)

/-- The effects of a message are reported by all ticks up to the end exactly when it shows a character or has no
effects; and they are the effects of the markers in the text. -/
theorem effects_reported_iff (b : AOTextBox) (shown : blank message = false) :
    ((∀ deltas, ((b.start_message message color_idx color_defs).ticks deltas).state = .done →
        Reported (effects (process message color_defs color_idx).events)
          ((b.start_message message color_idx color_defs).results deltas)) ↔
      0 < UTF8.length (process message color_defs color_idx).display ∨
        effects (process message color_defs color_idx).events = []) ∧
    (Clear message → CleanMarkup color_defs →
      effects (process message color_defs color_idx).events = markers message) := by
  refine ⟨⟨fun reported => ?_, fun condition deltas done => ?_⟩, fun clear clean =>
    process_effects clear clean color_idx⟩
  · by_contra neither
    rw [not_or] at neither
    have ended : (b.start_message message color_idx color_defs).state = .done := by
      simp [start_message, shown, neither.1]
    obtain ⟨parts, flat, same⟩ := reported [] ended
    cases same
    exact neither.2 flat.symm
  · have spent : (b.start_message message color_idx color_defs).Spent := by
      refine ⟨start_message_ordered message color_idx color_defs b, fun ended => ?_⟩
      rcases condition with some | none
      · simp [start_message, shown, some] at ended
      · exact none
    exact spent.reported done

theorem effects_reported_between :
    Reported (effects (process (bytes "\\sa\\f") [] 0).events)
      (((new []).start_message (bytes "\\sa\\f") 0 []).results [40]) :=
  (effects_reported_iff (bytes "\\sa\\f") 0 [] (new []) (by decide)).1.mpr (.inl (by decide +kernel)) [40]
    (by decide +kernel)

/-- A message that is an effect and nothing else is at its end before any tick. -/
theorem effect_without_text : ¬∀ b message color_idx color_defs deltas, blank message = false →
    ((start_message b message color_idx color_defs).ticks deltas).state = .done →
    Reported (markers message) ((start_message b message color_idx color_defs).results deltas) := by
  intro reported
  obtain ⟨parts, flat, same⟩ := reported (new []) (bytes "\\s") 0 [] [] (by decide) (by decide +kernel)
  cases same
  revert flat
  decide

end AOTextBox

end AoSdl
