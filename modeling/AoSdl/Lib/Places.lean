import Mathlib.Data.List.Perm.Basic

/-! Things kept in several places: what is counted in a place when one thing leaves it, and in a
family of places when one of them changes. With the predicate that holds of everything these are
facts about lengths. -/
namespace Lib.Places

variable {α : Type*} (p : α → Bool)

/-- What one thing counts for. -/
def one (a : α) : Nat := if p a then 1 else 0

theorem one_of_not {a : α} (other : ¬ p a = true) : one p a = 0 := if_neg other

theorem one_comp {β : Type*} (f : β → α) (b : β) : one (fun b => p (f b)) b = one p (f b) := rfl

theorem countP_snoc (l : List α) (a : α) : (l ++ [a]).countP p = l.countP p + one p a := by
  rw [List.countP_append, List.countP_cons, List.countP_nil, Nat.zero_add, one]

theorem countP_cons (l : List α) (a : α) : (a :: l).countP p = l.countP p + one p a := by
  rw [List.countP_cons, one]

theorem countP_eraseIdx {l : List α} {i : Nat} {a : α} (here : l[i]? = some a) :
    (l.eraseIdx i).countP p + one p a = l.countP p := by
  obtain ⟨bound, rfl⟩ := List.getElem?_eq_some_iff.mp here
  have perm := List.getElem_cons_eraseIdx_perm bound
  rw [← perm.countP_eq p, countP_cons]

theorem countP_set {l : List α} {i : Nat} {a : α} (b : α) (here : l[i]? = some a) :
    (l.set i b).countP p + one p a = l.countP p + one p b := by
  obtain ⟨bound, rfl⟩ := List.getElem?_eq_some_iff.mp here
  have perm := List.set_perm_cons_eraseIdx bound b
  have rest := countP_eraseIdx p here
  rw [perm.countP_eq p, countP_cons]
  omega

theorem length_eraseIdx {l : List α} {i : Nat} {a : α} (here : l[i]? = some a) :
    (l.eraseIdx i).length + 1 = l.length := by
  have counted := countP_eraseIdx (fun _ => true) here
  rw [List.countP_true] at counted
  exact counted

section Families

variable {ls : List (List α)} {i : Nat}

theorem countP_flatten_eraseIdx {l : List α} (here : ls[i]? = some l) :
    (ls.eraseIdx i).flatten.countP p + l.countP p = ls.flatten.countP p := by
  obtain ⟨bound, rfl⟩ := List.getElem?_eq_some_iff.mp here
  have perm := (List.getElem_cons_eraseIdx_perm bound).flatten
  rw [← perm.countP_eq p, List.flatten_cons, List.countP_append, Nat.add_comm]

theorem countP_flatten_set {l : List α} (l' : List α) (here : ls[i]? = some l) :
    (ls.set i l').flatten.countP p + l.countP p = ls.flatten.countP p + l'.countP p := by
  obtain ⟨bound, rfl⟩ := List.getElem?_eq_some_iff.mp here
  have perm := (List.set_perm_cons_eraseIdx bound l').flatten
  have rest := countP_flatten_eraseIdx p here
  rw [perm.countP_eq p, List.flatten_cons, List.countP_append]
  omega

theorem countP_flatten_tail {a : α} {l : List α} (here : ls[i]? = some (a :: l)) :
    (ls.set i l).flatten.countP p + one p a = ls.flatten.countP p := by
  have changed := countP_flatten_set p l here
  rw [countP_cons] at changed
  omega

variable {K : Type*} [DecidableEq K]

theorem countP_flatMap_update {keys : List K} (distinct : keys.Nodup) {k : K} (listed : k ∈ keys)
    (f : K → List α) (l : List α) :
    (keys.flatMap (Function.update f k l)).countP p + (f k).countP p =
      (keys.flatMap f).countP p + l.countP p := by
  induction keys with
  | nil => cases listed
  | cons q keys ih =>
    obtain ⟨fresh, distinct⟩ := List.nodup_cons.mp distinct
    rw [List.flatMap_cons, List.flatMap_cons, List.countP_append, List.countP_append]
    by_cases same : q = k
    · subst same
      have others : keys.flatMap (Function.update f q l) = keys.flatMap f :=
        List.flatMap_congr fun k member =>
          Function.update_of_ne (ne_of_mem_of_not_mem member fresh) l f
      rw [others, Function.update_self]
      omega
    · have later := ih distinct ((List.mem_cons.mp listed).resolve_left (Ne.symm same))
      rw [Function.update_of_ne same]
      omega

end Families

end Lib.Places
