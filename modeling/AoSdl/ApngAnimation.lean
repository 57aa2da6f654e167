import AoSdl.ApngFrames
import Mathlib.Data.List.ModifyLast

/-! Which chunks are the data of which frame, and whole files: what is given for them is the animation. -/
namespace AoSdl.ApngDecoder
open Lib.Compositor

section Grammar

/-- The chunks in front of the first frame control, and those behind each. -/
def groups : List ChunkRef → List ChunkRef × List (ChunkRef × List ChunkRef)
  | [] => ([], [])
  | c :: cs =>
    if c.tag_eq "fcTL" then ([], (c, (groups cs).1) :: (groups cs).2) else (c :: (groups cs).1, (groups cs).2)

def has_idat (cs : List ChunkRef) : Bool := cs.any (·.tag_eq "IDAT")

/-- The data of a frame: the default image when it is behind the frame control, else what the frame's own chunks
hold behind their sequence numbers. -/
def frame_data (cs : List ChunkRef) : Bytes :=
  if has_idat cs then idats cs else (cs.filter (·.tag_eq "fdAT")).flatMap (·.body.drop 4)

/-- Chunks that only an animation has, the end and texts. -/
def unneeded : List String := ["fcTL", "acTL", "IEND", "tEXt", "iTXt", "zTXt"]

/-- The chunks in front of the data that a decoder of still images needs. -/
def context (cs : List ChunkRef) : List ChunkRef :=
  (cs.takeWhile fun c => !c.tag_eq "IDAT").filter fun c => !unneeded.any c.tag_eq

/-- A decoder of still images that takes the data of an image together, however it is split. -/
def Joins (stbi_load_from_memory : Bytes → Option Image)
    (sub : Bytes → List ChunkRef → UInt32 → UInt32 → Bytes → Option Image) : Prop :=
  ∀ (ihdr_body : Bytes) (ancillary : List ChunkRef) (w h : UInt32) (idat_bodies : List Bytes), ihdr_body.length = 13 →
    (∀ c ∈ ancillary, c.Sized ∧ c.tag_eq "IDAT" = false) → (∀ b ∈ idat_bodies, b.length < 2 ^ 32) →
    stbi_load_from_memory (build_png ihdr_body w h ancillary idat_bodies) = sub ihdr_body ancillary w h idat_bodies.flatten

/-- The chunks of an animated PNG behind its header. -/
structure WellFormed (sub : Bytes → List ChunkRef → UInt32 → UInt32 → Bytes → Option Image) (ihdr : ChunkRef)
    (cs : List ChunkRef) : Prop where
  ihdr_chunk : ihdr.tag_eq "IHDR" = true ∧ ihdr.length = 13
  positive : 0 < (read_u32 ihdr.body).toNat ∧ 0 < (read_u32 (ihdr.body.drop 4)).toNat
  small : (read_u32 ihdr.body).toNat * (read_u32 (ihdr.body.drop 4)).toNat < 2 ^ 30
  /-- One animation control that counts the frames. -/
  control : ∃ c, cs.filter (·.tag_eq "acTL") = [c] ∧ c.length = 8 ∧ (read_u32 c.body).toNat = (groups cs).2.length
  frames : (groups cs).2 ≠ []
  controls : ∀ g ∈ (groups cs).2, g.1.length = 26
  /-- The default image is no frame, or the first one. -/
  default_image : has_idat cs = true ∧ ∀ g ∈ (groups cs).2.drop 1, has_idat g.2 = false
  default_apart : has_idat (groups cs).1 = true → ∀ g ∈ (groups cs).2, has_idat g.2 = false
  /-- The data of frames is behind the default image, and not in its frame. -/
  behind : ∀ c ∈ cs.takeWhile (fun c => !c.tag_eq "IDAT"), c.tag_eq "fdAT" = false
  shared : ∀ g ∈ (groups cs).2, has_idat g.2 = true → (g.2.any fun c => c.tag_eq "fdAT") = false
  filled : ∀ g ∈ (groups cs).2, has_idat g.2 = false → frame_data g.2 ≠ []
  operations : ∀ g ∈ (groups cs).2, (parse_fctl g.1.body).dispose_op ≤ 2 ∧ (parse_fctl g.1.body).blend_op ≤ 1
  /-- The images are of the sizes that the controls say, and inside of the canvas. -/
  images : ∀ g ∈ (groups cs).2, let f := parse_fctl g.1.body
    ∃ image, sub ihdr.body (context cs) f.width f.height (frame_data g.2) = some image ∧
      image.w = f.width ∧ image.h = f.height ∧
      f.x_offset.toNat + f.width.toNat ≤ (read_u32 ihdr.body).toNat ∧
      f.y_offset.toNat + f.height.toNat ≤ (read_u32 (ihdr.body.drop 4)).toNat

end Grammar

section Collecting

theorem tag_apart {c : ChunkRef} {a b : String} (tagged : c.tag_eq a = true) (apart : bytes a ≠ bytes b) :
    c.tag_eq b = false := by
  rw [ChunkRef.tag_eq, beq_iff_eq] at tagged
  rw [ChunkRef.tag_eq, beq_eq_false_iff_ne, tagged]
  exact apart

def frame_control (c : ChunkRef) : Bool := c.tag_eq "fcTL" && 26 ≤ c.length

def part (c : ChunkRef) : Bool := c.tag_eq "fdAT" && 4 < c.length

def add (parts : List Bytes) (fi : FrameInfo) : FrameInfo := { fi with data := fi.data ++ parts }

/-- Kept for still images, in front of the data. -/
def kept (c : ChunkRef) : Bool :=
  !frame_control c && !part c && !c.tag_eq "acTL" && !c.tag_eq "IEND" && !c.tag_eq "tEXt" && !c.tag_eq "iTXt" &&
    !c.tag_eq "zTXt"

theorem collect_frame_infos (s : Collected) (c : ChunkRef) : (collect s c).frame_infos =
    if frame_control c then s.frame_infos ++ [⟨parse_fctl c.body, []⟩]
    else if part c then s.frame_infos.modifyLast (add [c.body.drop 4]) else s.frame_infos := by
  unfold collect frame_control part
  split
  · rfl
  · by_cases idat : c.tag_eq "IDAT" = true
    · rw [if_pos idat, tag_apart idat (by decide : bytes "IDAT" ≠ bytes "fdAT")]
      rfl
    · rw [if_neg idat]
      split
      · rfl
      · split <;> rfl

theorem collect_all_idats (s : Collected) (c : ChunkRef) : (collect s c).all_idats =
    if c.tag_eq "IDAT" then s.all_idats ++ [c.body] else s.all_idats := by
  unfold collect
  by_cases idat : c.tag_eq "IDAT" = true
  · rw [tag_apart idat (by decide : bytes "IDAT" ≠ bytes "fcTL"), if_pos idat, if_pos idat]
    rfl
  · rw [if_neg idat, if_neg idat]
    split
    · rfl
    · split
      · rfl
      · split <;> rfl

theorem collect_ancillary (s : Collected) (c : ChunkRef) : (collect s c).ancillary =
    if !c.tag_eq "IDAT" && (kept c && s.all_idats.isEmpty) then s.ancillary ++ [c] else s.ancillary := by
  by_cases idat : c.tag_eq "IDAT" = true
  · have frame := tag_apart idat (by decide : bytes "IDAT" ≠ bytes "fcTL")
    simp only [collect, frame, idat, Bool.false_and, Bool.false_eq_true, if_false, if_true, Bool.not_true]
  · rw [Bool.not_eq_true] at idat
    unfold collect kept frame_control part
    rw [idat, Bool.not_false, Bool.true_and]
    split
    case isTrue controls => rw [controls]; rfl
    case isFalse controls =>
      rw [Bool.not_eq_true] at controls
      rw [controls, if_neg Bool.false_ne_true]
      split
      case isTrue parts => rw [parts]; rfl
      case isFalse parts =>
        rw [Bool.not_eq_true] at parts
        rw [parts, Bool.not_false, Bool.true_and, Bool.true_and]
        split <;> rfl

theorem modifyLast_modifyLast {α : Type} (f g : α → α) (l : List α) :
    (l.modifyLast f).modifyLast g = l.modifyLast (g ∘ f) := by
  induction l using List.reverseRecOn with
  | nil => rfl
  | append_singleton l a _ => simp only [List.modifyLast_concat, Function.comp_apply]

theorem modifyLast_id {α : Type} {f : α → α} (same : ∀ a, f a = a) (l : List α) : l.modifyLast f = l := by
  induction l using List.reverseRecOn with
  | nil => rfl
  | append_singleton l a _ => rw [List.modifyLast_concat, same]

theorem add_nil (fi : FrameInfo) : add [] fi = fi := congrArg (FrameInfo.mk fi.fctl) (List.append_nil fi.data)

def parts (cs : List ChunkRef) : List Bytes := (cs.filter part).map (·.body.drop 4)

def info (g : ChunkRef × List ChunkRef) : FrameInfo := ⟨parse_fctl g.1.body, parts g.2⟩

variable {cs : List ChunkRef}

/-- The chunks of the frames are collected frame by frame. -/
theorem run_frame_infos (controls : ∀ c ∈ cs, c.tag_eq "fcTL" = true → c.length = 26) (s : Collected) :
    (cs.foldl collect s).frame_infos =
      s.frame_infos.modifyLast (add (parts (groups cs).1)) ++ (groups cs).2.map info := by
  induction cs generalizing s with
  | nil => exact ((List.append_nil _).trans (modifyLast_id add_nil _)).symm
  | cons c cs ih =>
    obtain ⟨here, later⟩ := List.forall_mem_cons.mp controls
    rw [List.foldl_cons, ih later, collect_frame_infos, groups]
    by_cases frame : c.tag_eq "fcTL" = true
    · have long : frame_control c = true := by simp [frame_control, frame, here frame]
      have none : s.frame_infos.modifyLast (add (parts [])) = s.frame_infos :=
        modifyLast_id add_nil _
      rw [if_pos long, if_pos frame, List.modifyLast_concat, none, List.append_assoc]
      rfl
    · have short : ¬ frame_control c = true := by simp [frame_control, frame]
      rw [if_neg short, if_neg frame]
      by_cases data : part c = true
      · rw [if_pos data, modifyLast_modifyLast]
        have both : add (parts (groups cs).1) ∘ add [c.body.drop 4] = add (parts (c :: (groups cs).1)) := by
          funext fi
          simp [add, parts, data]
        rw [both]
      · have same : parts (c :: (groups cs).1) = parts (groups cs).1 := by simp [parts, data]
        rw [if_neg data, same]

theorem run_all_idats (s : Collected) :
    (cs.foldl collect s).all_idats = s.all_idats ++ (cs.filter (·.tag_eq "IDAT")).map (·.body) := by
  induction cs generalizing s with
  | nil => exact (List.append_nil _).symm
  | cons c cs ih =>
    rw [List.foldl_cons, ih, collect_all_idats]
    by_cases idat : c.tag_eq "IDAT" = true
    · rw [if_pos idat, List.filter_cons_of_pos (by exact idat), List.map_cons, List.append_assoc, List.singleton_append]
    · rw [if_neg idat, List.filter_cons_of_neg (by exact idat)]

theorem run_kept {s : Collected} (some : s.all_idats ≠ []) : (cs.foldl collect s).ancillary = s.ancillary := by
  induction cs generalizing s with
  | nil => rfl
  | cons c cs ih =>
    have more : (collect s c).all_idats ≠ [] := by
      rw [collect_all_idats]
      split
      · exact List.append_ne_nil_of_left_ne_nil some _
      · exact some
    have full : s.all_idats.isEmpty = false := List.isEmpty_eq_false_iff.mpr some
    rw [List.foldl_cons, ih more, collect_ancillary, full, Bool.and_false, Bool.and_false, if_neg Bool.false_ne_true]

theorem run_ancillary {s : Collected} (none : s.all_idats = []) :
    (cs.foldl collect s).ancillary = s.ancillary ++ (cs.takeWhile fun c => !c.tag_eq "IDAT").filter kept := by
  induction cs generalizing s with
  | nil => exact (List.append_nil _).symm
  | cons c cs ih =>
    rw [List.foldl_cons]
    by_cases idat : c.tag_eq "IDAT" = true
    · have some : (collect s c).all_idats ≠ [] := by
        rw [collect_all_idats, if_pos idat]
        exact List.append_ne_nil_of_right_ne_nil _ (List.cons_ne_nil _ _)
      rw [run_kept some, collect_ancillary, idat, List.takeWhile_cons_of_neg (by simp [idat])]
      exact (List.append_nil _).symm
    · rw [Bool.not_eq_true] at idat
      have still : (collect s c).all_idats = [] := by rw [collect_all_idats, idat, if_neg Bool.false_ne_true, none]
      rw [ih still, collect_ancillary, idat, none, List.takeWhile_cons_of_pos (by simp [idat])]
      by_cases keep : kept c = true
      · rw [List.filter_cons_of_pos keep, keep, if_pos (by decide), List.append_assoc, List.singleton_append]
      · rw [List.filter_cons_of_neg keep, Bool.not_eq_true] at *
        rw [keep, if_neg (by decide)]

end Collecting

section Files

variable {sub : Bytes → List ChunkRef → UInt32 → UInt32 → Bytes → Option Image} {ihdr : ChunkRef} {cs : List ChunkRef}

theorem groups_join (cs : List ChunkRef) : (groups cs).1 ++ (groups cs).2.flatMap (fun g => g.1 :: g.2) = cs := by
  induction cs with
  | nil => rfl
  | cons c cs ih =>
    rw [groups]
    split
    · rw [List.nil_append, List.flatMap_cons, List.cons_append, ih]
    · rw [List.cons_append, ih]

theorem groups_control (cs : List ChunkRef) : ∀ g ∈ (groups cs).2, g.1.tag_eq "fcTL" = true := by
  induction cs with
  | nil => exact List.forall_mem_nil _
  | cons c cs ih =>
    rw [groups]
    split
    case isTrue frame => exact List.forall_mem_cons.mpr ⟨frame, ih⟩
    case isFalse => exact ih

theorem groups_before (cs : List ChunkRef) : ∀ c ∈ (groups cs).1, c.tag_eq "fcTL" = false := by
  induction cs with
  | nil => exact List.forall_mem_nil _
  | cons c cs ih =>
    rw [groups]
    split
    case isTrue => exact List.forall_mem_nil _
    case isFalse other => exact List.forall_mem_cons.mpr ⟨Bool.not_eq_true _ ▸ other, ih⟩

theorem groups_behind (cs : List ChunkRef) : ∀ g ∈ (groups cs).2, ∀ c ∈ g.2, c.tag_eq "fcTL" = false := by
  induction cs with
  | nil => exact List.forall_mem_nil _
  | cons c cs ih =>
    rw [groups]
    split
    case isTrue => exact List.forall_mem_cons.mpr ⟨groups_before cs, ih⟩
    case isFalse => exact ih

theorem WellFormed.long (well : WellFormed sub ihdr cs) : ∀ c ∈ cs, c.tag_eq "fcTL" = true → c.length = 26 := by
  intro c member frame
  rw [← groups_join cs] at member
  obtain before | inside := List.mem_append.mp member
  · rw [groups_before cs c before] at frame
    exact absurd frame Bool.false_ne_true
  · obtain ⟨g, there, inside⟩ := List.mem_flatMap.mp inside
    obtain rfl | inside := List.mem_cons.mp inside
    · exact well.controls g there
    · rw [groups_behind cs g there c inside] at frame
      exact absurd frame Bool.false_ne_true

theorem idats_append (cs cs' : List ChunkRef) : idats (cs ++ cs') = idats cs ++ idats cs' := by
  simp [idats]

theorem idats_none (none : has_idat cs = false) : idats cs = [] := by
  have empty : cs.filter (·.tag_eq "IDAT") = [] := List.filter_eq_nil_iff.mpr fun c member => by
    rw [has_idat, List.any_eq_false] at none
    exact none c member
  rw [idats, empty]
  rfl

/-- The default image of a first frame is all of the data chunks. -/
theorem WellFormed.default_all (well : WellFormed sub ihdr cs) {g : ChunkRef × List ChunkRef}
    {gs : List (ChunkRef × List ChunkRef)} (first : (groups cs).2 = g :: gs) (default : has_idat g.2 = true) :
    idats cs = idats g.2 := by
  have control : g.1.tag_eq "fcTL" = true := groups_control cs g (first ▸ List.mem_cons_self)
  have apart : has_idat [g.1] = false := by
    simp [has_idat, tag_apart control (by decide : bytes "fcTL" ≠ bytes "IDAT")]
  have before : has_idat (groups cs).1 = false := by
    by_contra there
    have none := well.default_apart (Bool.not_eq_false _ ▸ there) g (first ▸ List.mem_cons_self)
    rw [default] at none
    exact absurd none.symm Bool.false_ne_true
  have others : ∀ g' ∈ gs, has_idat (g'.1 :: g'.2) = false := by
    intro g' member
    have none := well.default_image.2 g' (by rwa [first])
    have control := groups_control cs g' (first ▸ List.mem_cons_of_mem _ member)
    rw [has_idat, List.any_cons, tag_apart control (by decide : bytes "fcTL" ≠ bytes "IDAT"), Bool.false_or]
    exact none
  have rest : idats (gs.flatMap fun g => g.1 :: g.2) = [] := by
    refine idats_none ?_
    rw [has_idat, List.any_eq_false]
    intro c member
    obtain ⟨g', there, inside⟩ := List.mem_flatMap.mp member
    have none := others g' there
    rw [has_idat, List.any_eq_false] at none
    exact none c inside
  calc idats cs = idats ((groups cs).1 ++ (groups cs).2.flatMap fun g => g.1 :: g.2) := by rw [groups_join]
    _ = idats g.2 := by
      rw [first, List.flatMap_cons, idats_append, idats_append, idats_none before, rest, ← List.singleton_append,
        idats_append, idats_none apart, List.nil_append, List.nil_append, List.append_nil]

theorem parts_flatten (cs : List ChunkRef) : (parts cs).flatten = (cs.filter (·.tag_eq "fdAT")).flatMap (·.body.drop 4) := by
  induction cs with
  | nil => rfl
  | cons c cs ih =>
    by_cases data : c.tag_eq "fdAT" = true
    · rw [List.filter_cons_of_pos (by exact data), List.flatMap_cons, ← ih]
      by_cases long : 4 < c.length
      · have there : part c = true := by simp [part, data, long]
        rw [parts, List.filter_cons_of_pos there]
        rfl
      · have gone : ¬ part c = true := by simp [part, long]
        have empty : c.body.drop 4 = [] := List.drop_eq_nil_of_le (not_lt.mp long)
        rw [parts, List.filter_cons_of_neg gone, empty]
        rfl
    · have gone : ¬ part c = true := by simp [part, data]
      rw [List.filter_cons_of_neg (by exact data), ← ih, parts, List.filter_cons_of_neg gone]
      rfl

theorem parts_none (none : (cs.any fun c => c.tag_eq "fdAT") = false) : parts cs = [] := by
  have empty : cs.filter part = [] := List.filter_eq_nil_iff.mpr fun c member => by
    rw [List.any_eq_false] at none
    simp [part, none c member]
  rw [parts, empty]
  rfl

/-- The information of a frame with the data that it is drawn from. -/
def resolved (cs : List ChunkRef) (g : ChunkRef × List ChunkRef) : FrameInfo :=
  ⟨parse_fctl g.1.body, if has_idat g.2 then (cs.filter (·.tag_eq "IDAT")).map (·.body) else parts g.2⟩

theorem WellFormed.parts_some (well : WellFormed sub ihdr cs) {g : ChunkRef × List ChunkRef} (member : g ∈ (groups cs).2)
    (own : has_idat g.2 = false) : parts g.2 ≠ [] := by
  intro none
  have filled := well.filled g member own
  rw [frame_data, own, if_neg Bool.false_ne_true, ← parts_flatten, none] at filled
  exact filled rfl

theorem WellFormed.kept_context (well : WellFormed sub ihdr cs) :
    (cs.takeWhile fun c => !c.tag_eq "IDAT").filter kept = context cs := by
  refine List.filter_congr fun c member => ?_
  have none := well.behind c member
  have controls : frame_control c = c.tag_eq "fcTL" := by
    rw [frame_control, Bool.and_eq_left_iff_imp]
    intro frame
    have long := well.long c (List.takeWhile_prefix _ |>.subset member) frame
    exact decide_eq_true (by omega)
  rw [kept, controls, part, none]
  simp [unneeded, Bool.and_assoc]

theorem WellFormed.collected (well : WellFormed sub ihdr cs) :
    collect_frames (ihdr :: cs) = ((groups cs).2.map (resolved cs), context cs) := by
  have frames := run_frame_infos well.long {}
  have none : ([] : List FrameInfo).modifyLast (add (parts (groups cs).1)) = [] := rfl
  have ancillary : (cs.foldl collect {}).ancillary = context cs := by
    rw [run_ancillary rfl, well.kept_context]
    rfl
  have idats : (cs.foldl collect {}).all_idats = (cs.filter (·.tag_eq "IDAT")).map (·.body) := by
    rw [run_all_idats]
    rfl
  rw [none, List.nil_append] at frames
  obtain ⟨g, gs, first⟩ := List.exists_cons_of_ne_nil well.frames
  have here : g ∈ (groups cs).2 := first ▸ List.mem_cons_self
  have others : gs.map info = gs.map (resolved cs) := by
    refine List.map_congr_left fun g' member => ?_
    have own := well.default_image.2 g' (by rwa [first])
    rw [info, resolved, own, if_neg Bool.false_ne_true]
  have head : (if (info g).data.isEmpty then { info g with data := (cs.filter (·.tag_eq "IDAT")).map (·.body) } else info g) =
      resolved cs g := by
    by_cases default : has_idat g.2 = true
    · have empty := parts_none (well.shared g here default)
      rw [info, resolved, empty, if_pos default]
      rfl
    · rw [Bool.not_eq_true] at default
      have some := List.isEmpty_eq_false_iff.mpr (well.parts_some here default)
      rw [info, resolved, some, default, if_neg Bool.false_ne_true, if_neg Bool.false_ne_true]
  rw [collect_frames, List.drop_succ_cons, List.drop_zero, frames, first, List.map_cons]
  dsimp only
  rw [idats, ancillary, List.map_cons, ← others, ← head]
  split <;> rfl

theorem WellFormed.data (well : WellFormed sub ihdr cs) (sized : ∀ c ∈ cs, c.Sized) {g : ChunkRef × List ChunkRef}
    (member : g ∈ (groups cs).2) : (resolved cs g).data ≠ [] ∧ (resolved cs g).data.flatten = frame_data g.2 ∧
      ∀ b ∈ (resolved cs g).data, b.length < 2 ^ 32 := by
  have behind : ∀ c ∈ g.2, c ∈ cs := by
    intro c inside
    rw [← groups_join cs]
    exact List.mem_append_right _ (List.mem_flatMap.mpr ⟨g, member, List.mem_cons_of_mem _ inside⟩)
  by_cases default : has_idat g.2 = true
  · obtain ⟨g', gs, first⟩ := List.exists_cons_of_ne_nil well.frames
    have same : g = g' := by
      rw [first] at member
      obtain same | later := List.mem_cons.mp member
      · exact same
      · have none := well.default_image.2 g (by rwa [first])
        rw [default] at none
        exact absurd none.symm Bool.false_ne_true
    subst same
    have all := well.default_all first default
    obtain ⟨c, inside, idat⟩ := List.any_eq_true.mp default
    rw [resolved, if_pos default, frame_data, if_pos default, ← all]
    refine ⟨?_, by rw [idats, List.flatMap_def], ?_⟩
    · exact List.ne_nil_of_mem (List.mem_map_of_mem (List.mem_filter.mpr ⟨behind c inside, idat⟩))
    · intro b there
      obtain ⟨c, found, rfl⟩ := List.mem_map.mp there
      exact (sized c (List.mem_of_mem_filter found)).2
  · rw [Bool.not_eq_true] at default
    rw [resolved, default, if_neg Bool.false_ne_true]
    refine ⟨well.parts_some member default, ?_, ?_⟩
    · rw [frame_data, default, if_neg Bool.false_ne_true, parts_flatten]
    · intro b there
      obtain ⟨c, found, rfl⟩ := List.mem_map.mp there
      have small := (sized c (behind c (List.mem_of_mem_filter found))).2
      rw [List.length_drop]
      omega

end Files

section Decoding

variable {sub : Bytes → List ChunkRef → UInt32 → UInt32 → Bytes → Option Image} {ihdr : ChunkRef} {cs : List ChunkRef}
  {stbi_load_from_memory : Bytes → Option Image}

/-- The image of a frame. -/
def frame_image (sub : Bytes → List ChunkRef → UInt32 → UInt32 → Bytes → Option Image) (ihdr : ChunkRef)
    (cs : List ChunkRef) (g : ChunkRef × List ChunkRef) : Image :=
  let f := parse_fctl g.1.body
  (sub ihdr.body (context cs) f.width f.height (frame_data g.2)).getD ⟨0, 0, []⟩

/-- The frames of a file. -/
def animation (sub : Bytes → List ChunkRef → UInt32 → UInt32 → Bytes → Option Image)
    (blend_over : Pixel → Pixel → Pixel) (ihdr : ChunkRef) (cs : List ChunkRef) : List (Frame Pixel) :=
  (groups cs).2.map fun g => layer blend_over (parse_fctl g.1.body) (frame_image sub ihdr cs g)

/-- What is to be given for a file: the canvases that it shows. -/
def played (sub : Bytes → List ChunkRef → UInt32 → UInt32 → Bytes → Option Image)
    (blend_over : Pixel → Pixel → Pixel) (ihdr : ChunkRef) (cs : List ChunkRef) (flip_y : Bool) : List DecodedFrame :=
  List.zipWith (fun g => frame_of (read_u32 ihdr.body) (read_u32 (ihdr.body.drop 4)) (parse_fctl g.1.body) flip_y)
    (groups cs).2 (play blank (animation sub blend_over ihdr cs))

theorem raster_blank (canvas_w canvas_h : UInt32) (countable : Countable canvas_w canvas_h) :
    List.replicate (canvas_size canvas_w canvas_h).toNat 0 = raster canvas_w.toNat canvas_h.toNat fun _ => blank := by
  have zero : ∀ b ∈ raster canvas_w.toNat canvas_h.toNat fun _ => blank, b = 0 := by
    intro b member
    obtain ⟨y, _, inside⟩ := List.mem_flatMap.mp member
    obtain ⟨x, _, byte⟩ := List.mem_flatMap.mp inside
    exact List.eq_of_mem_replicate (n := 4) byte
  rw [List.eq_replicate_of_mem zero, length_raster, (canvas_size_exact_iff canvas_w canvas_h).mpr countable]
  congr 1
  rw [← Nat.mul_assoc, Nat.mul_comm canvas_h.toNat]

theorem loop_raster (blend_over : Pixel → Pixel → Pixel) (o : Opened) (ancillary : List ChunkRef) (flip_y : Bool)
    {ps : List (FrameInfo × Image)} (each : ∀ p ∈ ps, p.1.data ≠ [] ∧
      sub_image stbi_load_from_memory o.ihdr_body ancillary p.1 = some p.2 ∧ Fits o.canvas_w o.canvas_h p.1.fctl p.2)
    (frames : List DecodedFrame) (c : Canvas Pixel) :
    ((ps.map Prod.fst).foldl (decode_next stbi_load_from_memory blend_over o ancillary flip_y)
      (frames, raster o.canvas_w.toNat o.canvas_h.toNat c)).1 =
    frames ++ List.zipWith (fun p => frame_of o.canvas_w o.canvas_h p.1.fctl flip_y) ps
      (shown blank c (ps.map fun p => layer blend_over p.1.fctl p.2)) := by
  induction ps generalizing frames c with
  | nil => exact (List.append_nil _).symm
  | cons p ps ih =>
    obtain ⟨⟨some, decoded, fits⟩, later⟩ := List.forall_mem_cons.mp each
    have there : p.1.data.isEmpty = false := List.isEmpty_eq_false_iff.mpr some
    rw [List.map_cons, List.foldl_cons, decode_next, there, if_neg Bool.false_ne_true, decode_frame_raster fits decoded]
    dsimp only
    rw [ih later, List.append_assoc]
    rfl

/-- The control of the animation is found, and it counts the frames. -/
theorem WellFormed.multi_iff (well : WellFormed sub ihdr cs) :
    (header ihdr cs).multi = true ↔ 2 ≤ (groups cs).2.length := by
  obtain ⟨c, only, size, count⟩ := well.control
  have ihdr_other : ihdr.tag_eq "acTL" = false := tag_apart well.ihdr_chunk.1 (by decide)
  have found : (ihdr :: cs).find? (fun c => c.tag_eq "acTL" && 8 ≤ c.length) = some c := by
    have enough : 8 ≤ c.length := by omega
    have both := congrArg (List.filter fun c : ChunkRef => decide (8 ≤ c.length)) only
    have alone : [c].filter (fun c : ChunkRef => decide (8 ≤ c.length)) = [c] := by simp [enough]
    rw [List.filter_filter, alone] at both
    have swapped : cs.filter (fun c => c.tag_eq "acTL" && decide (8 ≤ c.length)) = [c] := by
      rw [← both]
      exact List.filter_congr fun c _ => Bool.and_comm _ _
    rw [← List.head?_filter, List.filter_cons_of_neg (by simp [ihdr_other]), swapped]
    rfl
  have more : (1 : UInt32) < read_u32 c.body ↔ 2 ≤ (groups cs).2.length := by
    rw [UInt32.lt_iff_toNat_lt, count]
    rfl
  simp only [Opened.multi, header, found, Option.isSome_some, Option.map_some, Option.getD_some, Bool.true_and,
    decide_eq_true_eq, more]

/-- What is given for a still image. -/
def still (flip_y : Bool) (image : Image) : List DecodedFrame :=
  let w := image.w.toInt32.toInt
  let h := image.h.toInt32.toInt
  [⟨w, h, 0, if flip_y then flip_vertical_rgba image.pixels w h else image.pixels⟩]

theorem WellFormed.fits (well : WellFormed sub ihdr cs) {g : ChunkRef × List ChunkRef} (member : g ∈ (groups cs).2) :
    sub ihdr.body (context cs) (parse_fctl g.1.body).width (parse_fctl g.1.body).height (frame_data g.2) =
        some (frame_image sub ihdr cs g) ∧
      Fits (read_u32 ihdr.body) (read_u32 (ihdr.body.drop 4)) (parse_fctl g.1.body) (frame_image sub ihdr cs g) := by
  obtain ⟨image, decoded, w, h, across, down⟩ := well.images g member
  have same : frame_image sub ihdr cs g = image := by rw [frame_image, decoded]; rfl
  rw [same]
  exact ⟨decoded, well.positive, well.small, across, down, w, h⟩

theorem context_plain (sized : ∀ c ∈ cs, c.Sized) : ∀ c ∈ context cs, c.Sized ∧ c.tag_eq "IDAT" = false := by
  intro c member
  have before := List.mem_of_mem_filter member
  refine ⟨sized c ((List.takeWhile_prefix _).subset before), ?_⟩
  have other := List.mem_takeWhile_imp before
  rwa [Bool.not_eq_true'] at other

/-- Every frame is decoded to its image, from the data that it is drawn from. -/
theorem WellFormed.drawable (well : WellFormed sub ihdr cs) (sized : ∀ c ∈ cs, c.Sized)
    (joins : Joins stbi_load_from_memory sub) :
    ∀ p ∈ (groups cs).2.map (fun g => (resolved cs g, frame_image sub ihdr cs g)), p.1.data ≠ [] ∧
      sub_image stbi_load_from_memory (header ihdr cs).ihdr_body (context cs) p.1 = some p.2 ∧
      Fits (header ihdr cs).canvas_w (header ihdr cs).canvas_h p.1.fctl p.2 := by
  intro p member
  obtain ⟨g, there, rfl⟩ := List.mem_map.mp member
  obtain ⟨decoded, fits⟩ := well.fits there
  obtain ⟨some, whole, small⟩ := well.data sized there
  refine ⟨some, ?_, fits⟩
  rw [← decoded, ← whole]
  exact joins _ _ _ _ _ well.ihdr_chunk.2 (context_plain sized) small

/-- The loop over the frames, from the blank canvas. -/
theorem WellFormed.loop (well : WellFormed sub ihdr cs) (sized : ∀ c ∈ cs, c.Sized)
    (joins : Joins stbi_load_from_memory sub) (blend_over : Pixel → Pixel → Pixel) (flip_y : Bool) :
    (((groups cs).2.map (resolved cs)).foldl
      (decode_next stbi_load_from_memory blend_over (header ihdr cs) (context cs) flip_y)
      ([], List.replicate (canvas_size (header ihdr cs).canvas_w (header ihdr cs).canvas_h).toNat 0)).1 =
    played sub blend_over ihdr cs flip_y := by
  have countable : Countable (header ihdr cs).canvas_w (header ihdr cs).canvas_h := by
    have := well.small
    simp only [Countable, header]
    omega
  have all : (groups cs).2.map (resolved cs) =
      ((groups cs).2.map fun g => (resolved cs g, frame_image sub ihdr cs g)).map Prod.fst := by
    rw [List.map_map]
    rfl
  have drawn : ((groups cs).2.map fun g => (resolved cs g, frame_image sub ihdr cs g)).map
      (fun p => layer blend_over p.1.fctl p.2) = animation sub blend_over ihdr cs := by
    rw [List.map_map]
    rfl
  rw [all, raster_blank _ _ countable, loop_raster blend_over _ _ _ (well.drawable sized joins), drawn, ← play_shown,
    List.zipWith_map_left, List.nil_append]
  rfl

theorem decode_several (blend_over : Pixel → Pixel → Pixel) (joins : Joins stbi_load_from_memory sub) {rest : Bytes}
    (chunks : Chunks rest (ihdr :: cs)) (well : WellFormed sub ihdr cs) (flip_y : Bool)
    (several : 2 ≤ (groups cs).2.length) : decode stbi_load_from_memory blend_over (png_sig ++ rest) flip_y =
      some (played sub blend_over ihdr cs flip_y) := by
  have accepted := opened_file chunks well.ihdr_chunk.1 well.ihdr_chunk.2.ge
  have loop := well.loop (List.forall_mem_cons.mp chunks.sized).2 joins blend_over flip_y
  have collected : collect_frames (header ihdr cs).chunks = ((groups cs).2.map (resolved cs), context cs) :=
    well.collected
  have given : (played sub blend_over ihdr cs flip_y).isEmpty = false := by
    rw [List.isEmpty_eq_false_iff, ← List.length_pos_iff, played, play_shown, List.length_zipWith, length_shown, animation,
      List.length_map, Nat.min_self]
    omega
  rw [decode, accepted]
  dsimp only
  rw [well.multi_iff.mpr several, collected]
  simp only [Bool.not_true, Bool.false_eq_true, if_false]
  generalize List.foldl _ _ ((groups cs).2.map (resolved cs)) = state at loop ⊢
  obtain ⟨frames, canvas⟩ := state
  dsimp only at loop ⊢
  rw [loop, given, if_neg Bool.false_ne_true]

theorem decode_one (blend_over : Pixel → Pixel → Pixel) {rest : Bytes} (chunks : Chunks rest (ihdr :: cs))
    (well : WellFormed sub ihdr cs) (flip_y : Bool) (one : ¬ 2 ≤ (groups cs).2.length) :
    decode stbi_load_from_memory blend_over (png_sig ++ rest) flip_y =
      (stbi_load_from_memory (png_sig ++ rest)).map (still flip_y) := by
  have accepted := opened_file chunks well.ihdr_chunk.1 well.ihdr_chunk.2.ge
  have plain : (header ihdr cs).multi = false := by rwa [← Bool.not_eq_true, well.multi_iff]
  rw [decode, accepted]
  dsimp only
  rw [plain]
  rfl

/-- A file of several frames is given as the animation that it is, a file of one frame as its default image. -/
theorem decode_animation (blend_over : Pixel → Pixel → Pixel) (joins : Joins stbi_load_from_memory sub) {rest : Bytes}
    (chunks : Chunks rest (ihdr :: cs)) (well : WellFormed sub ihdr cs) (flip_y : Bool) :
    decode stbi_load_from_memory blend_over (png_sig ++ rest) flip_y =
      if 2 ≤ (groups cs).2.length then some (played sub blend_over ihdr cs flip_y)
      else (stbi_load_from_memory (png_sig ++ rest)).map (still flip_y) := by
  split
  case isTrue several => exact decode_several blend_over joins chunks well flip_y several
  case isFalse one => exact decode_one blend_over chunks well flip_y one

end Decoding

section Examples

/-- The decoder of stored images, with the data together. -/
def stored_sub (ihdr_body : Bytes) (_ : List ChunkRef) (w h : UInt32) (data : Bytes) : Option Image :=
  stored (frame_ihdr ihdr_body w h).body data

theorem stored_joins : Joins stored_png stored_sub := fun _ _ w h _ size apart small =>
  stored_png_build w h (by omega) apart small

def small_ihdr : ChunkRef := chunk "IHDR" (write_u32 1 ++ write_u32 1 ++ [8, 6, 0, 0, 0])

/-- A red default image that is the first frame, and a blue frame. -/
theorem two_frames_formed : WellFormed stored_sub small_ihdr large_chunks where
  ihdr_chunk := by decide +kernel
  positive := by decide +kernel
  small := by decide +kernel
  control := ⟨chunk "acTL" (write_u32 2 ++ write_u32 0), by decide +kernel⟩
  frames := by decide +kernel
  controls := by decide +kernel
  default_image := by decide +kernel
  default_apart := by decide +kernel
  behind := by decide +kernel
  shared := by decide +kernel
  filled := by decide +kernel
  operations := by decide +kernel
  images := by
    have two : (groups large_chunks).2 = [(chunk "fcTL" (fctl_body 0 one_by_one), [chunk "IDAT" (one_pixel ⟨255, 0, 0, 255⟩)]),
        (chunk "fcTL" (fctl_body 1 one_by_one),
          [chunk "fdAT" (write_u32 2 ++ one_pixel ⟨0, 0, 255, 255⟩), chunk "IEND" []])] := by decide +kernel
    rw [two]
    refine List.forall_mem_cons.mpr ⟨⟨⟨1, 1, [255, 0, 0, 255]⟩, by decide +kernel⟩, ?_⟩
    exact List.forall_mem_singleton.mpr ⟨⟨1, 1, [0, 0, 255, 255]⟩, by decide +kernel⟩

def small_file (cs : List ChunkRef) : Bytes := (small_ihdr :: cs).flatMap fun c => write_chunk c.type c.body

theorem decode_animation_small : decode stored_png (fun _ src => src) (png_sig ++ small_file large_chunks) false =
    if 2 ≤ (groups large_chunks).2.length then some (played stored_sub (fun _ src => src) small_ihdr large_chunks false)
    else (stored_png (png_sig ++ small_file large_chunks)).map (still false) :=
  decode_animation (fun _ src => src) stored_joins (Chunks.written (by decide +kernel)) two_frames_formed false

/-- A red default image, and a blue frame of its own. -/
def one_frame_chunks : List ChunkRef := [
  chunk "acTL" (write_u32 1 ++ write_u32 0), chunk "IDAT" (one_pixel ⟨255, 0, 0, 255⟩),
  chunk "fcTL" (fctl_body 0 one_by_one), chunk "fdAT" (write_u32 1 ++ one_pixel ⟨0, 0, 255, 255⟩), chunk "IEND" []]

theorem one_frame_formed : WellFormed stored_sub small_ihdr one_frame_chunks where
  ihdr_chunk := by decide +kernel
  positive := by decide +kernel
  small := by decide +kernel
  control := ⟨chunk "acTL" (write_u32 1 ++ write_u32 0), by decide +kernel⟩
  frames := by decide +kernel
  controls := by decide +kernel
  default_image := by decide +kernel
  default_apart := by decide +kernel
  behind := by decide +kernel
  shared := by decide +kernel
  filled := by decide +kernel
  operations := by decide +kernel
  images := by
    have one : (groups one_frame_chunks).2 = [(chunk "fcTL" (fctl_body 0 one_by_one),
        [chunk "fdAT" (write_u32 1 ++ one_pixel ⟨0, 0, 255, 255⟩), chunk "IEND" []])] := by decide +kernel
    rw [one]
    exact List.forall_mem_singleton.mpr ⟨⟨1, 1, [0, 0, 255, 255]⟩, by decide +kernel⟩

/-- The frame of a file with one frame is not shown, but the default image that is none of its frames. -/
theorem only_frame_lost : ¬ ∀ (stbi_load_from_memory : Bytes → Option Image)
    (sub : Bytes → List ChunkRef → UInt32 → UInt32 → Bytes → Option Image) (blend_over : Pixel → Pixel → Pixel),
    Joins stbi_load_from_memory sub → ∀ (ihdr : ChunkRef) (cs : List ChunkRef) (rest : Bytes), Chunks rest (ihdr :: cs) →
    WellFormed sub ihdr cs → ∀ flip_y, decode stbi_load_from_memory blend_over (png_sig ++ rest) flip_y =
      some (played sub blend_over ihdr cs flip_y) := by
  intro claim
  have chunks : Chunks (small_file one_frame_chunks) (small_ihdr :: one_frame_chunks) := Chunks.written (by decide +kernel)
  have shown := claim stored_png stored_sub (fun _ src => src) stored_joins _ _ _ chunks one_frame_formed false
  rw [decode_one _ chunks one_frame_formed false (by decide +kernel), stored_png_file chunks] at shown
  exact absurd shown (by decide +kernel)

end Examples

end AoSdl.ApngDecoder
