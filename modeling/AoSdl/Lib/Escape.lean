import Mathlib.Data.List.Basic
import Mathlib.Data.List.Infix
import Mathlib.Tactic.Common

/-! Escaping of single letters by bracketed tokens. An escaper writes the token of every
special letter; an unescaper replaces the tokens one kind after another, each pass from
left to right. The two are inverse on texts that contain no token. -/
namespace Lib.Escape

variable {α : Type*}

/-- A special letter and the token that stands for it. -/
structure Entry (α : Type*) where
  letter : α
  token : List α
  deriving DecidableEq

/-- Tokens start with the bracket and have it nowhere else, contain no special letter, and
none starts another. -/
structure Bracketed (bracket : α) (table : List (Entry α)) : Prop where
  opened : ∀ e ∈ table, ∃ body, e.token = bracket :: body ∧ body ≠ [] ∧ bracket ∉ body
  plain : ∀ e ∈ table, ∀ e' ∈ table, e'.letter ∉ e.token
  apart : table.Pairwise fun e e' =>
    e.letter ≠ e'.letter ∧ ¬ e.token <+: e'.token ∧ ¬ e'.token <+: e.token

def Free (table : List (Entry α)) (s : List α) : Prop := ∀ e ∈ table, ¬ e.token <:+: s

variable {bracket : α} {table : List (Entry α)} {e : Entry α}

theorem Bracketed.tail (bracketed : Bracketed bracket (e :: table)) : Bracketed bracket table :=
  ⟨fun f member => bracketed.opened f (List.mem_cons_of_mem _ member),
    fun f member f' member' => bracketed.plain f (List.mem_cons_of_mem _ member) f'
      (List.mem_cons_of_mem _ member'),
    (List.pairwise_cons.mp bracketed.apart).2⟩

theorem Bracketed.token_ne_nil (bracketed : Bracketed bracket table) (member : e ∈ table) :
    e.token ≠ [] := by
  obtain ⟨body, shape, _⟩ := bracketed.opened e member
  simp [shape]

/-- A letter that no token contains parts a text into two whose tokens are those of the text. -/
theorem free_cons_append {c : α} (foreign : ∀ e ∈ table, c ∉ e.token)
    {s t : List α} : Free table (s ++ c :: t) ↔ Free table s ∧ Free table t := by
  constructor
  · intro free
    refine ⟨fun e member occurs => free e member ?_, fun e member occurs => free e member ?_⟩
    · exact occurs.trans (List.prefix_append s _).isInfix
    · exact occurs.trans ((List.suffix_cons c t).isInfix.trans (List.suffix_append s _).isInfix)
  · rintro ⟨left, right⟩ e member ⟨u, v, split⟩
    have outside := foreign e member
    rcases List.append_eq_append_iff.mp split with ⟨a, s_eq, rest⟩ | ⟨a, ut, rest⟩
    · exact left e member ⟨u, a, s_eq.symm⟩
    · cases a with
      | nil =>
        rw [List.append_nil] at ut
        exact left e member ⟨u, [], by rw [List.append_nil]; exact ut⟩
      | cons d a =>
        rw [List.cons_append] at rest
        obtain ⟨rfl, t_eq⟩ := List.cons.inj rest
        rcases List.append_eq_append_iff.mp ut with ⟨b, s_eq, token⟩ | ⟨b, u_eq, tail⟩
        · exact outside (token ▸ by simp)
        · cases b with
          | nil => exact outside (by rw [List.nil_append] at tail; rw [← tail]; simp)
          | cons f b =>
            rw [List.cons_append] at tail
            obtain ⟨rfl, a_eq⟩ := List.cons.inj tail
            exact right e member ⟨b, v, by rw [t_eq, a_eq]⟩

variable [DecidableEq α]

/-- Replaces the occurrences of `src`, none overlapping, from left to right. `skip` letters
of an occurrence remain to be dropped. -/
def replaceFrom (src dst : List α) : Nat → List α → List α
  | _, [] => []
  | skip + 1, _ :: rest => replaceFrom src dst skip rest
  | 0, c :: rest =>
    if src <+: c :: rest then dst ++ replaceFrom src dst (src.length - 1) rest
    else c :: replaceFrom src dst 0 rest

def replaceAll (src dst s : List α) : List α := replaceFrom src dst 0 s

def escapeLetter (table : List (Entry α)) (c : α) : List α :=
  match table.find? fun e => e.letter = c with
  | none => [c]
  | some e => e.token

def escape (table : List (Entry α)) (s : List α) : List α := s.flatMap (escapeLetter table)

def unescape (table : List (Entry α)) (s : List α) : List α :=
  table.foldl (fun t e => replaceAll e.token [e.letter] t) s

section Replace

variable {src dst : List α}

theorem replaceFrom_cons (c : α) (rest : List α) : replaceFrom src dst 0 (c :: rest) =
    if src <+: c :: rest then dst ++ replaceFrom src dst (src.length - 1) rest
    else c :: replaceFrom src dst 0 rest := rfl

@[simp] theorem replaceFrom_succ (skip : Nat) (c : α) (rest : List α) :
    replaceFrom src dst (skip + 1) (c :: rest) = replaceFrom src dst skip rest := rfl

theorem replaceFrom_drop (n : Nat) (s : List α) :
    replaceFrom src dst n s = replaceAll src dst (s.drop n) := by
  induction s generalizing n with
  | nil => cases n <;> rfl
  | cons c rest ih =>
    cases n with
    | zero => rfl
    | succ n => exact ih n

theorem replaceAll_match {rest : List α} (inhabited : src ≠ []) :
    replaceAll src dst (src ++ rest) = dst ++ replaceAll src dst rest := by
  cases src with
  | nil => exact absurd rfl inhabited
  | cons c tail =>
    have here : c :: tail <+: c :: (tail ++ rest) := ⟨rest, rfl⟩
    rw [List.cons_append, replaceAll, replaceFrom_cons, if_pos here, replaceFrom_drop]
    simp

theorem replaceAll_step {c : α} {rest : List α} (differs : ¬ src <+: c :: rest) :
    replaceAll src dst (c :: rest) = c :: replaceAll src dst rest := by
  rw [replaceAll, replaceFrom_cons, if_neg differs, replaceAll]

theorem replaceAll_absent {s : List α} (absent : ¬ src <:+: s) : replaceAll src dst s = s := by
  induction s with
  | nil => rfl
  | cons c rest ih =>
    rw [List.infix_cons_iff, not_or] at absent
    rw [replaceAll_step absent.1, ih absent.2]

theorem replaceAll_length (shorter : dst.length ≤ src.length) (s : List α) :
    (replaceAll src dst s).length ≤ s.length := by
  have bound : ∀ n, (replaceFrom src dst n s).length ≤ s.length - n := by
    induction s with
    | nil => intro n; cases n <;> exact Nat.zero_le _
    | cons c rest ih =>
      intro n
      cases n with
      | succ n => simpa using ih n
      | zero =>
        rw [replaceFrom_cons]
        split
        · next starts =>
          have fits := starts.length_le
          have later := ih (src.length - 1)
          simp only [List.length_append, List.length_cons] at fits ⊢
          omega
        · have later := ih 0
          simp only [List.length_cons]
          omega
  exact bound 0

/-- When the replacement is shorter, an occurrence makes the text shorter. -/
theorem replaceAll_length_lt (shorter : dst.length < src.length) {s : List α}
    (occurs : src <:+: s) : (replaceAll src dst s).length < s.length := by
  induction s with
  | nil =>
    rw [List.infix_nil.mp occurs] at shorter
    simp at shorter
  | cons c rest ih =>
    by_cases starts : src <+: c :: rest
    · obtain ⟨tail, split⟩ := starts
      have inhabited : src ≠ [] := by
        rintro rfl
        simp at shorter
      have later : (replaceAll src dst tail).length ≤ tail.length :=
        replaceAll_length (Nat.le_of_lt shorter) tail
      rw [← split, replaceAll_match inhabited, List.length_append, List.length_append]
      omega
    · have inside := (List.infix_cons_iff.mp occurs).resolve_left starts
      rw [replaceAll_step starts]
      have later := ih inside
      simp only [List.length_cons]
      omega

/-- A letter outside the pattern is never lost. -/
theorem count_le_replaceAll {c : α} (inhabited : src ≠ []) (foreign : c ∉ src) (s : List α) :
    s.count c ≤ (replaceAll src dst s).count c := by
  have bound : ∀ n, (s.drop n).count c ≤ (replaceFrom src dst n s).count c := by
    induction s with
    | nil => intro n; cases n <;> exact Nat.zero_le _
    | cons d rest ih =>
      intro n
      cases n with
      | succ n => simpa using ih n
      | zero =>
        rw [replaceFrom_cons, List.drop_zero]
        split
        · next starts =>
          obtain ⟨tail, split⟩ := starts
          have behind : rest.drop (src.length - 1) = tail := by
            obtain ⟨e, src, rfl⟩ := List.exists_cons_of_ne_nil inhabited
            simp [← (List.cons.inj split).2]
          have later := ih (src.length - 1)
          rw [behind] at later
          rw [← split, List.count_append, List.count_append, List.count_eq_zero_of_not_mem foreign]
          omega
        · have later := ih 0
          rw [List.drop_zero] at later
          simp only [List.count_cons]
          omega
  exact bound 0

/-- A stretch in which no occurrence begins is copied. -/
theorem replaceAll_copy {x rest : List α}
    (none_begins : ∀ u v, x = u ++ v → v ≠ [] → ¬ src <+: v ++ rest) :
    replaceAll src dst (x ++ rest) = x ++ replaceAll src dst rest := by
  induction x with
  | nil => rfl
  | cons c x ih =>
    have here : ¬ src <+: c :: (x ++ rest) := none_begins [] (c :: x) rfl (by simp)
    have later := ih fun u v same => none_begins (c :: u) v (by rw [same]; rfl)
    rw [List.cons_append, List.cons_append, replaceAll_step here, later]

end Replace

section Table

@[simp] theorem escape_nil (table : List (Entry α)) : escape table [] = [] := rfl

@[simp] theorem escape_cons (table : List (Entry α)) (c : α) (s : List α) :
    escape table (c :: s) = escapeLetter table c ++ escape table s := rfl

theorem escape_empty (s : List α) : escape [] s = s := by
  induction s with
  | nil => rfl
  | cons c s ih => rw [escape_cons, ih]; rfl

theorem escapeLetter_cases (table : List (Entry α)) (c : α) :
    (∃ e ∈ table, e.letter = c ∧ escapeLetter table c = e.token) ∨
      ((∀ e ∈ table, e.letter ≠ c) ∧ escapeLetter table c = [c]) := by
  unfold escapeLetter
  cases found : table.find? fun e => e.letter = c with
  | none => exact .inr ⟨by simpa using found, rfl⟩
  | some e => exact .inl ⟨e, List.mem_of_find?_eq_some found, by simpa using List.find?_some found, rfl⟩

/-- A word with neither the bracket nor a special letter is read off an escaped text as it
is off the text. -/
theorem prefix_escape (bracketed : Bracketed bracket table) {w s : List α} (clear : bracket ∉ w)
    (starts : w <+: escape table s) : w <+: s := by
  induction w generalizing s with
  | nil => exact List.nil_prefix
  | cons a w ih =>
    cases s with
    | nil => simp at starts
    | cons c s =>
      rw [escape_cons] at starts
      rcases escapeLetter_cases table c with ⟨e, member, _, image⟩ | ⟨_, image⟩
      · obtain ⟨body, shape, _⟩ := bracketed.opened e member
        rw [image, shape, List.cons_append] at starts
        have same := (List.cons_prefix_cons.mp starts).1
        exact absurd (by simp [same]) clear
      · rw [image] at starts
        obtain ⟨same, later⟩ := List.cons_prefix_cons.mp starts
        rw [same]
        exact List.cons_prefix_cons.mpr ⟨rfl, ih (fun member => clear (List.mem_cons_of_mem _ member)) later⟩

/-- One pass of the unescaper takes the tokens of its own letter back. -/
theorem replaceAll_escape (bracketed : Bracketed bracket (e :: table)) {s : List α}
    (absent : ¬ e.token <:+: s) :
    replaceAll e.token [e.letter] (escape (e :: table) s) = escape table s := by
  obtain ⟨body, shape, _, clear⟩ := bracketed.opened e List.mem_cons_self
  have others := (List.pairwise_cons.mp bracketed.apart).1
  have inhabited := bracketed.token_ne_nil List.mem_cons_self
  induction s with
  | nil => rfl
  | cons c s ih =>
    rw [List.infix_cons_iff, not_or] at absent
    rw [escape_cons, escape_cons]
    by_cases own : e.letter = c
    · have image : escapeLetter (e :: table) c = e.token := by simp [escapeLetter, own]
      have kept : escapeLetter table c = [c] := by
        rcases escapeLetter_cases table c with ⟨f, member, same, _⟩ | ⟨_, image⟩
        · exact absurd (own.trans same.symm) (others f member).1
        · exact image
      rw [image, kept, replaceAll_match inhabited, ih absent.2, own]
    · have image : escapeLetter (e :: table) c = escapeLetter table c := by
        simp [escapeLetter, own]
      rw [image, replaceAll_copy, ih absent.2]
      intro u v split nonempty starts
      rcases escapeLetter_cases table c with ⟨f, member, _, token⟩ | ⟨_, same⟩
      · obtain ⟨fbody, fshape, _, fclear⟩ := bracketed.opened f (List.mem_cons_of_mem _ member)
        rw [token] at split
        cases u with
        | nil =>
          rw [List.nil_append] at split
          subst split
          rcases List.prefix_or_prefix_of_prefix starts (List.prefix_append f.token _) with a | b
          · exact (others f member).2.1 a
          · exact (others f member).2.2 b
        | cons b u =>
          cases v with
          | nil => exact nonempty rfl
          | cons d v =>
            rw [fshape, List.cons_append] at split
            have inside : d ∈ fbody := by
              rw [(List.cons.inj split).2]
              simp
            rw [shape, List.cons_append] at starts
            have same := (List.cons_prefix_cons.mp starts).1
            exact fclear (same ▸ inside)
      · rw [same] at split
        cases u with
        | cons b u => simp_all
        | nil =>
          rw [List.nil_append] at split
          rw [← split, shape, List.singleton_append] at starts
          obtain ⟨first, later⟩ := List.cons_prefix_cons.mp starts
          refine absent.1 ?_
          rw [shape, first]
          exact List.cons_prefix_cons.mpr ⟨rfl, prefix_escape bracketed clear later⟩

theorem unescape_escape (bracketed : Bracketed bracket table) {s : List α} (free : Free table s) :
    unescape table (escape table s) = s := by
  induction table with
  | nil => exact escape_empty s
  | cons e table ih =>
    have pass := replaceAll_escape bracketed (free e List.mem_cons_self)
    rw [unescape, List.foldl_cons, pass]
    exact ih bracketed.tail fun f member => free f (List.mem_cons_of_mem _ member)

theorem unescape_free {s : List α} (free : Free table s) : unescape table s = s := by
  induction table with
  | nil => rfl
  | cons e table ih =>
    rw [unescape, List.foldl_cons, replaceAll_absent (free e List.mem_cons_self)]
    exact ih fun f member => free f (List.mem_cons_of_mem _ member)

theorem unescape_length (bracketed : Bracketed bracket table) (s : List α) :
    (unescape table s).length ≤ s.length := by
  induction table generalizing s with
  | nil => exact Nat.le_refl _
  | cons e table ih =>
    obtain ⟨body, shape, _⟩ := bracketed.opened e List.mem_cons_self
    rw [unescape, List.foldl_cons]
    exact (ih bracketed.tail _).trans (replaceAll_length (by simp [shape]) s)

/-- Unescaping loses no letter that no token contains. -/
theorem count_le_unescape {c : α} (bracketed : Bracketed bracket table)
    (foreign : ∀ e ∈ table, c ∉ e.token) (s : List α) : s.count c ≤ (unescape table s).count c := by
  induction table generalizing s with
  | nil => exact Nat.le_refl _
  | cons e table ih =>
    have inhabited := bracketed.token_ne_nil List.mem_cons_self
    have pass : s.count c ≤ (replaceAll e.token [e.letter] s).count c :=
      count_le_replaceAll inhabited (foreign e List.mem_cons_self) s
    rw [unescape, List.foldl_cons]
    exact pass.trans (ih bracketed.tail (fun f member => foreign f (List.mem_cons_of_mem _ member)) _)

/-- The unescaper leaves exactly the texts alone that contain no token. -/
theorem unescape_eq_self (bracketed : Bracketed bracket table) {s : List α} :
    unescape table s = s ↔ Free table s := by
  refine ⟨fun same => ?_, unescape_free⟩
  induction table with
  | nil => simp [Free]
  | cons e table ih =>
    obtain ⟨body, shape, inhabited, _⟩ := bracketed.opened e List.mem_cons_self
    have shorter : [e.letter].length < e.token.length := by
      have := List.length_pos_iff.mpr inhabited
      simp [shape]
      omega
    rw [unescape, List.foldl_cons] at same
    have absent : ¬ e.token <:+: s := by
      intro occurs
      have less := replaceAll_length_lt shorter occurs
      have rest := unescape_length bracketed.tail (replaceAll e.token [e.letter] s)
      rw [unescape, same] at rest
      omega
    rw [replaceAll_absent absent] at same
    have later := ih bracketed.tail same
    intro f member
    rcases List.mem_cons.mp member with rfl | inside
    · exact absent
    · exact later f inside

/-- Special letters do not survive escaping. -/
theorem letter_not_mem_escape (bracketed : Bracketed bracket table) (member : e ∈ table)
    (s : List α) : e.letter ∉ escape table s := by
  intro inside
  obtain ⟨c, _, here⟩ := List.mem_flatMap.mp inside
  rcases escapeLetter_cases table c with ⟨f, fmember, _, image⟩ | ⟨other, image⟩
  · rw [image] at here
    exact bracketed.plain f fmember e member here
  · rw [image, List.mem_singleton] at here
    exact other e member here

end Table

end Lib.Escape
