import AoSdl.HttpServer

/-! Patterns with parameters. What a pattern says of a path is a relation of its own; the matcher
decides it, and on the way writes the parameters it finds into the request. -/
namespace AoSdl.http

/-- Empty, or starts with a slash. -/
def AtSlash (s : Bytes) : Prop := ∀ c ∈ s.head?, c = 47

/-- Values without a slash for the segments `:name` of a pattern turn it into the path. -/
inductive Turns : Bytes → List (Bytes × Bytes) → Bytes → Prop where
  | done : Turns [] [] []
  | literal {c : UInt8} {p s : Bytes} {a : List (Bytes × Bytes)} (plain : c ≠ 58) (rest : Turns p a s) :
      Turns (c :: p) a (c :: s)
  | parameter {name value p s : Bytes} {a : List (Bytes × Bytes)} (named : 47 ∉ name) (ends : AtSlash p)
      (segment : 47 ∉ value) (rest : Turns p a s) :
      Turns (58 :: (name ++ p)) ((name, value) :: a) (value ++ s)

/-- How far a pattern goes along a path, with the values of the segments it passes, and whether it
reaches the end of both. -/
inductive Goes : Bytes → List (Bytes × Bytes) → Bytes → Bool → Prop where
  | done : Goes [] [] [] true
  | longer {c : UInt8} {s : Bytes} : Goes [] [] (c :: s) false
  | differs {c : UInt8} {p s : Bytes} (plain : c ≠ 58) (other : s.head? ≠ some c) : Goes (c :: p) [] s false
  | literal {c : UInt8} {p s : Bytes} {a : List (Bytes × Bytes)} {b : Bool} (plain : c ≠ 58)
      (rest : Goes p a s b) : Goes (c :: p) a (c :: s) b
  | parameter {name value p s : Bytes} {a : List (Bytes × Bytes)} {b : Bool} (named : 47 ∉ name)
      (ends : AtSlash p) (segment : 47 ∉ value) (stops : AtSlash s) (rest : Goes p a s b) :
      Goes (58 :: (name ++ p)) ((name, value) :: a) (value ++ s) b

/-- The map that holds the last value of each name. -/
def assigned (a : List (Bytes × Bytes)) : List (Bytes × Bytes) :=
  a.foldl (fun params p => set_param params p.1 p.2) []

/-- What a request holds in `path_params` when these patterns have been tried without success. -/
inductive LeftAssigned (req : Request) : List Bytes → List (Bytes × Bytes) → Prop where
  | first : LeftAssigned req [] req.path_params
  | after {patterns : List Bytes} {pattern : Bytes} {a : List (Bytes × Bytes)}
      (tried : Goes pattern a req.path false) : LeftAssigned req (patterns ++ [pattern]) (assigned a)

/-- The same names with the same values. -/
def SameParams (params a : List (Bytes × Bytes)) : Prop := ∀ p, p ∈ params ↔ p ∈ a

section Relations

variable {p s : Bytes} {a a' : List (Bytes × Bytes)} {b b' : Bool}

theorem slash_cut {n : Bytes} (clean : 47 ∉ n) (ends : AtSlash p) :
    (n ++ p).takeWhile (· ≠ 47) = n ∧ (n ++ p).dropWhile (· ≠ 47) = p := by
  have pass : ∀ c ∈ n, decide (c ≠ 47) = true := fun c member => by
    simpa using fun same : c = 47 => clean (same ▸ member)
  rw [List.takeWhile_append_of_pos pass, List.dropWhile_append_of_pos pass]
  cases p with
  | nil => simp
  | cons c p =>
    obtain rfl : c = 47 := ends c rfl
    simp

theorem slash_inj {n n' p' : Bytes} (clean : 47 ∉ n) (clean' : 47 ∉ n') (ends : AtSlash p)
    (ends' : AtSlash p') (same : n ++ p = n' ++ p') : n = n' ∧ p = p' := by
  obtain ⟨front, back⟩ := slash_cut clean ends
  obtain ⟨front', back'⟩ := slash_cut clean' ends'
  rw [same] at front back
  exact ⟨front.symm.trans front', back.symm.trans back'⟩

theorem slash_parts (s : Bytes) : 47 ∉ s.takeWhile (· ≠ 47) ∧ AtSlash (s.dropWhile (· ≠ 47)) := by
  constructor
  · intro member
    simpa using List.mem_takeWhile_imp member
  · intro c first
    have head := List.head?_dropWhile_not (fun c : UInt8 => decide (c ≠ 47)) s
    rw [Option.mem_def.mp first] at head
    simpa using head

/-- A pattern turns into a path that begins as it does. -/
theorem Turns.starts (turns : Turns p a s) (ends : AtSlash p) : AtSlash s := by
  cases turns with
  | done => exact ends
  | literal => exact ends
  | parameter => exact absurd (ends 58 rfl) (by decide)

theorem turns_iff_goes : Turns p a s ↔ Goes p a s true := by
  constructor
  · intro turns
    induction turns with
    | done => exact .done
    | literal plain _ ih => exact .literal plain ih
    | parameter named ends segment rest ih => exact .parameter named ends segment (rest.starts ends) ih
  · intro goes
    generalize whole : true = b at goes
    induction goes with
    | done => exact .done
    | longer => cases whole
    | differs => cases whole
    | literal plain _ ih => exact .literal plain (ih whole)
    | parameter named ends segment _ _ ih => exact .parameter named ends segment (ih whole)

/-- A pattern goes along a path in one way. -/
theorem Goes.unique (goes : Goes p a s b) (goes' : Goes p a' s b') : a = a' ∧ b = b' := by
  induction goes generalizing a' b' with
  | done => cases goes'; exact ⟨rfl, rfl⟩
  | longer => cases goes'; exact ⟨rfl, rfl⟩
  | differs plain other =>
    cases goes' with
    | differs => exact ⟨rfl, rfl⟩
    | literal => exact absurd rfl other
    | parameter => exact absurd rfl plain
  | @literal c p s a b plain _ ih =>
    generalize path : c :: s = t at goes'
    cases goes' with
    | differs _ other => exact absurd (congrArg List.head? path).symm other
    | literal _ rest => exact ih ((List.cons.inj path).2 ▸ rest)
    | parameter => exact absurd rfl plain
  | @parameter name value p s a b named ends segment stops _ ih =>
    generalize pattern : 58 :: (name ++ p) = q at goes'
    generalize path : value ++ s = t at goes'
    cases goes' with
    | done => cases pattern
    | longer => cases pattern
    | differs plain => exact absurd (List.cons.inj pattern).1.symm plain
    | literal plain => exact absurd (List.cons.inj pattern).1.symm plain
    | @parameter name' value' p' s' a' b' named' ends' segment' stops' rest' =>
      obtain ⟨rfl, rfl⟩ := slash_inj named named' ends ends' (List.cons.inj pattern).2
      obtain ⟨rfl, rfl⟩ := slash_inj segment segment' stops stops' path
      obtain ⟨rfl, same⟩ := ih rest'
      exact ⟨rfl, same⟩

theorem goes_literals {fragment : Bytes} (plain : 58 ∉ fragment) (rest : Goes p a s b) :
    Goes (fragment ++ p) a (fragment ++ s) b := by
  induction fragment with
  | nil => exact rest
  | cons c fragment ih =>
    rw [List.mem_cons, not_or] at plain
    exact .literal (Ne.symm plain.1) (ih plain.2)

theorem goes_differs {fragment : Bytes} (plain : 58 ∉ fragment) (other : ¬ fragment <+: s) :
    Goes (fragment ++ p) [] s false := by
  induction fragment generalizing s with
  | nil => exact absurd List.nil_prefix other
  | cons c fragment ih =>
    rw [List.mem_cons, not_or] at plain
    by_cases first : s.head? = some c
    · obtain ⟨t, rfl⟩ : ∃ t, s = c :: t := by
        cases s with
        | nil => cases first
        | cons d t => exact ⟨t, by rw [Option.some.inj first]⟩
      exact .literal (Ne.symm plain.1) (ih plain.2 fun starts => other (List.cons_prefix_cons.mpr ⟨rfl, starts⟩))
    · exact .differs (Ne.symm plain.1) first

theorem goes_last {last : Bytes} (plain : 58 ∉ last) (path : Bytes) : Goes last [] path (path = last) := by
  by_cases starts : last <+: path
  · obtain ⟨rest, rfl⟩ := starts
    cases rest with
    | nil => simpa using goes_literals plain .done
    | cons c rest => simpa using goes_literals plain (.longer (c := c) (s := rest))
  · have other : ¬ path = last := fun same => starts (same ▸ List.prefix_rfl)
    have differs := goes_differs (p := []) plain starts
    simpa [other] using differs

end Relations

/-- The matcher goes along the path as the pattern does, and leaves what it passes. -/
theorem match_parts_goes (fuel : Nat) (pattern path : Bytes) (params : List (Bytes × Bytes))
    (enough : pattern.length ≤ fuel) : ∃ a,
      Goes pattern a path
        (match_parts (PathParamsMatcher fuel pattern).2 (PathParamsMatcher fuel pattern).1 path params).1 ∧
      (match_parts (PathParamsMatcher fuel pattern).2 (PathParamsMatcher fuel pattern).1 path params).2 =
        a.foldl (fun params p => set_param params p.1 p.2) params := by
  induction fuel generalizing pattern path params with
  | zero =>
    obtain rfl := List.length_eq_zero_iff.mp (Nat.le_zero.mp enough)
    exact ⟨[], goes_last List.not_mem_nil path, rfl⟩
  | succ fuel ih =>
    rw [PathParamsMatcher]
    cases split : Lib.Fields.splitFirst 58 pattern with
    | none => exact ⟨[], goes_last (Lib.Fields.splitFirst_none.mp split) path, rfl⟩
    | some parts =>
      obtain ⟨fragment, rest⟩ := parts
      obtain ⟨rfl, plain⟩ := Lib.Fields.splitFirst_some split
      dsimp only
      rw [match_parts]
      split
      · next starts =>
        obtain ⟨s, rfl⟩ := starts
        have behind : (fragment ++ s).drop fragment.length = s := List.drop_left
        obtain ⟨named, ends⟩ := slash_parts rest
        obtain ⟨segment, stops⟩ := slash_parts s
        have shorter : (rest.dropWhile (· ≠ 47)).length ≤ fuel := by
          have less := (List.dropWhile_sublist (l := rest) fun c : UInt8 => decide (c ≠ 47)).length_le
          simp only [List.length_append, List.length_cons] at enough
          omega
        obtain ⟨a, goes, left⟩ := ih (rest.dropWhile (· ≠ 47)) (s.dropWhile (· ≠ 47))
          (set_param params (rest.takeWhile (· ≠ 47)) (s.takeWhile (· ≠ 47))) shorter
        simp only [behind]
        refine ⟨(rest.takeWhile (· ≠ 47), s.takeWhile (· ≠ 47)) :: a, ?_, left⟩
        have passed := goes_literals plain (.parameter named ends segment stops goes)
        rwa [List.takeWhile_append_dropWhile, List.takeWhile_append_dropWhile] at passed
      · next other => exact ⟨[], goes_differs plain other, rfl⟩

theorem match_path_goes (pattern path : Bytes) : ∃ a, Goes pattern a path (match_path pattern path).1 ∧
    (match_path pattern path).2 = assigned a :=
  match_parts_goes pattern.length pattern path [] (Nat.le_refl _)

section Assigned

variable {a : List (Bytes × Bytes)}

theorem assigned_append (p : Bytes × Bytes) : assigned (a ++ [p]) = set_param (assigned a) p.1 p.2 := by
  simp [assigned]

theorem assigned_subset {p : Bytes × Bytes} (member : p ∈ assigned a) : p ∈ a := by
  induction a using List.reverseRecOn with
  | nil => exact member
  | append_singleton a q ih =>
    rw [assigned_append, set_param] at member
    rcases List.mem_cons.mp member with rfl | kept
    · simp
    · exact List.mem_append_left _ (ih (List.mem_filter.mp kept).1)

theorem assigned_name {p : Bytes × Bytes} (member : p ∈ a) : ∃ v, (p.1, v) ∈ assigned a := by
  induction a using List.reverseRecOn with
  | nil => cases member
  | append_singleton a q ih =>
    rw [assigned_append, set_param]
    by_cases same : p.1 = q.1
    · exact ⟨q.2, by rw [same]; exact List.mem_cons_self⟩
    · rcases List.mem_append.mp member with earlier | last
      · obtain ⟨v, held⟩ := ih earlier
        exact ⟨v, List.mem_cons_of_mem _ (List.mem_filter.mpr ⟨held, by simpa using same⟩)⟩
      · exact absurd (congrArg Prod.fst (List.mem_singleton.mp last)) same

theorem assigned_single {n v v' : Bytes} (first : (n, v) ∈ assigned a) (second : (n, v') ∈ assigned a) :
    v = v' := by
  induction a using List.reverseRecOn with
  | nil => cases first
  | append_singleton a q ih =>
    rw [assigned_append, set_param, List.mem_cons, List.mem_filter] at first second
    have other {u : Bytes} (kept : (n, u) ∈ assigned a ∧ decide ((n, u).1 ≠ q.1) = true) : n ≠ q.1 := by
      simpa using kept.2
    rcases first with here | kept <;> rcases second with here' | kept'
    · exact (Prod.mk.inj here).2.trans (Prod.mk.inj here').2.symm
    · exact absurd (Prod.mk.inj here).1 (other kept')
    · exact absurd (Prod.mk.inj here').1 (other kept)
    · exact ih kept.1 kept'.1

/-- The map holds the values of all segments exactly if no name has two. -/
theorem same_assigned_iff : SameParams (assigned a) a ↔
    ∀ n v v', (n, v) ∈ a → (n, v') ∈ a → v = v' := by
  constructor
  · intro same n v v' first second
    exact assigned_single ((same (n, v)).mpr first) ((same (n, v')).mpr second)
  · intro single p
    refine ⟨assigned_subset, fun member => ?_⟩
    obtain ⟨v, held⟩ := assigned_name member
    obtain rfl := single p.1 p.2 v member (assigned_subset held)
    exact held

end Assigned

section Handlers

variable {H : Type} {req : Request}

/-- The first pattern that turns into the path is the one whose handler is found, and the request then
holds its parameters. -/
structure RouteExact (handlers : List (Bytes × H)) (req : Request) : Prop where
  missing : (∀ e ∈ handlers, ∀ a, ¬ Turns e.1 a req.path) → (find_handler handlers req).1 = none
  first : ∀ front pattern h back a, handlers = front ++ (pattern, h) :: back →
    (∀ e ∈ front, ∀ a, ¬ Turns e.1 a req.path) → Turns pattern a req.path →
    (find_handler handlers req).1 = some h ∧ SameParams (find_handler handlers req).2.path_params a

theorem turns_self (s : Bytes) : ∃ a, Turns s a s := by
  induction length : s.length using Nat.strong_induction_on generalizing s with
  | _ n ih =>
    cases s with
    | nil => exact ⟨[], .done⟩
    | cons c s =>
      by_cases colon : c = 58
      · subst colon
        obtain ⟨named, ends⟩ := slash_parts s
        have less := (List.dropWhile_sublist (l := s) fun c : UInt8 => decide (c ≠ 47)).length_le
        obtain ⟨a, turns⟩ := ih _ (by rw [← length, List.length_cons]; omega) (s.dropWhile (· ≠ 47)) rfl
        have segment : 47 ∉ 58 :: s.takeWhile (· ≠ 47) := by
          rw [List.mem_cons, not_or]
          exact ⟨by decide, named⟩
        have whole := Turns.parameter named ends segment turns
        rw [List.cons_append, List.takeWhile_append_dropWhile] at whole
        exact ⟨_, whole⟩
      · obtain ⟨a, turns⟩ := ih s.length (by rw [← length, List.length_cons]; omega) s rfl
        exact ⟨a, .literal colon turns⟩

theorem match_turns {pattern path : Bytes} {a : List (Bytes × Bytes)} (turns : Turns pattern a path) :
    match_path pattern path = (true, assigned a) := by
  obtain ⟨a', goes, left⟩ := match_path_goes pattern path
  obtain ⟨rfl, found⟩ := goes.unique (turns_iff_goes.mp turns)
  exact Prod.ext found left

theorem match_fails {pattern path : Bytes} (fails : ∀ a, ¬ Turns pattern a path) :
    ∃ a, Goes pattern a path false ∧ match_path pattern path = (false, assigned a) := by
  obtain ⟨a, goes, left⟩ := match_path_goes pattern path
  cases found : (match_path pattern path).1 with
  | true =>
    rw [found] at goes
    exact absurd (turns_iff_goes.mpr goes) (fails a)
  | false =>
    rw [found] at goes
    exact ⟨a, goes, Prod.ext found left⟩

theorem LeftAssigned.unique {patterns : List Bytes} {params params' : List (Bytes × Bytes)}
    (left : LeftAssigned req patterns params) (left' : LeftAssigned req patterns params') :
    params = params' := by
  generalize same : patterns = patterns' at left'
  cases left with
  | first =>
    cases left' with
    | first => rfl
    | after => simp at same
  | after tried =>
    cases left' with
    | first => simp at same
    | after tried' =>
      obtain ⟨_, last⟩ := List.append_inj' same rfl
      obtain rfl := (List.cons.inj last).1
      obtain ⟨rfl, _⟩ := tried.unique tried'
      rfl

theorem LeftAssigned.next {pattern : Bytes} {a params : List (Bytes × Bytes)} {patterns : List Bytes}
    (tried : Goes pattern a req.path false)
    (left : LeftAssigned { req with path_params := assigned a } patterns params) :
    LeftAssigned req (pattern :: patterns) params := by
  generalize changed : { req with path_params := assigned a } = req' at left
  have path : req'.path = req.path := by rw [← changed]
  cases left with
  | first =>
    rw [← changed]
    exact @LeftAssigned.after _ [] _ _ tried
  | @after earlier last a' tried' =>
    rw [path] at tried'
    exact @LeftAssigned.after _ (pattern :: earlier) _ _ tried'

theorem find_handler_first {front : List (Bytes × H)} {pattern : Bytes} (h : H) (back : List (Bytes × H))
    {a : List (Bytes × Bytes)} (fails : ∀ e ∈ front, ∀ a, ¬ Turns e.1 a req.path)
    (turns : Turns pattern a req.path) :
    ∃ params, LeftAssigned req (front.map Prod.fst) params ∧
      find_handler (front ++ (pattern, h) :: back) req =
        (some h, { req with path_params := if pattern = req.path then params else assigned a }) := by
  induction front generalizing req with
  | nil =>
    refine ⟨req.path_params, .first, ?_⟩
    rw [List.nil_append, find_handler, match_turns turns]
    split <;> rfl
  | cons e front ih =>
    obtain ⟨earlier, handler⟩ := e
    have fails_here := fails (earlier, handler) List.mem_cons_self
    have other : ¬ earlier = req.path := by
      rintro rfl
      obtain ⟨b, self⟩ := turns_self req.path
      exact fails_here b self
    obtain ⟨b, goes, left⟩ := match_fails fails_here
    have behind : ∀ e ∈ front, ∀ a, ¬ Turns e.1 a { req with path_params := assigned b }.path :=
      fun e member => fails e (List.mem_cons_of_mem _ member)
    obtain ⟨params, carries, found⟩ := ih behind turns
    refine ⟨params, carries.next goes, ?_⟩
    rw [List.cons_append, find_handler, if_neg other, left]
    exact found

theorem find_handler_none {handlers : List (Bytes × H)}
    (fails : ∀ e ∈ handlers, ∀ a, ¬ Turns e.1 a req.path) : (find_handler handlers req).1 = none := by
  induction handlers generalizing req with
  | nil => rfl
  | cons e handlers ih =>
    obtain ⟨pattern, handler⟩ := e
    have fails_here := fails (pattern, handler) List.mem_cons_self
    have other : ¬ pattern = req.path := by
      rintro rfl
      obtain ⟨b, self⟩ := turns_self req.path
      exact fails_here b self
    obtain ⟨b, _, left⟩ := match_fails fails_here
    rw [find_handler, if_neg other, left]
    have behind : ∀ e ∈ handlers, ∀ a, ¬ Turns e.1 a { req with path_params := assigned b }.path :=
      fun e member => fails e (List.mem_cons_of_mem _ member)
    exact ih behind

/-- The route is exact exactly if the first pattern that turns into the path gives no name two values,
or is the path itself while the request carries its parameters already. -/
theorem route_exact_iff (handlers : List (Bytes × H)) (req : Request) : RouteExact handlers req ↔
    ∀ front pattern h back a, handlers = front ++ (pattern, h) :: back →
      (∀ e ∈ front, ∀ a, ¬ Turns e.1 a req.path) → Turns pattern a req.path →
      (pattern ≠ req.path → ∀ n v v', (n, v) ∈ a → (n, v') ∈ a → v = v') ∧
      (pattern = req.path → ∀ params, LeftAssigned req (front.map Prod.fst) params → SameParams params a) := by
  constructor
  · rintro ⟨_, first⟩ front pattern h back a rfl fails turns
    obtain ⟨params, carries, found⟩ := find_handler_first h back fails turns
    have same := (first front pattern h back a rfl fails turns).2
    rw [found] at same
    constructor
    · intro other
      rw [if_neg other] at same
      exact same_assigned_iff.mp same
    · intro here params' carries'
      rw [if_pos here, carries.unique carries'] at same
      exact same
  · intro exact
    refine ⟨find_handler_none, ?_⟩
    rintro front pattern h back a rfl fails turns
    obtain ⟨params, carries, found⟩ := find_handler_first h back fails turns
    obtain ⟨single, carried⟩ := exact front pattern h back a rfl fails turns
    rw [found]
    refine ⟨rfl, ?_⟩
    by_cases here : pattern = req.path
    · rw [if_pos here]
      exact carried here params carries
    · rw [if_neg here]
      exact same_assigned_iff.mpr (single here)

/-- A pattern tried first leaves its parameter to a route without parameters. -/
theorem parameter_left_over : ¬ ∀ (handlers : List (Bytes × Unit)) (req : Request),
    RouteExact handlers req := by
  intro exact
  have route := (exact [(bytes "/a/:id/b", ()), (bytes "/a/c", ())] { path := bytes "/a/c" }).first
    [(bytes "/a/:id/b", ())] (bytes "/a/c") () [] [] rfl ?_ ?_
  · have left := (route.2 (bytes "id", bytes "c")).mp (by decide +kernel)
    cases left
  · intro e member a turns
    obtain rfl := List.mem_singleton.mp member
    have found : (match_path (bytes "/a/:id/b") (bytes "/a/c")).1 = true :=
      congrArg Prod.fst (match_turns turns)
    exact absurd found (by decide +kernel)
  · have plain : Goes (bytes "/a/c" ++ []) [] (bytes "/a/c" ++ []) true :=
      goes_literals (by decide +kernel) .done
    rw [List.append_nil] at plain
    exact turns_iff_goes.mpr plain

end Handlers

end AoSdl.http
