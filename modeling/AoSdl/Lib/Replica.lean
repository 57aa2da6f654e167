import Mathlib.Data.Option.Basic
import Mathlib.Logic.Basic

/-! A table and a replica of it that is updated by commands. A command is held by the writer that
changed the table until it is sent, and is executed in the order of sending. -/
namespace Lib.Replica

variable {K V C : Type*} (effect : C → K → Option V)

/-- A replica after a command. -/
def apply (c : C) (replica : K → V) : K → V := fun k => (effect c k).getD (replica k)

def replay (queue : List C) (replica : K → V) : K → V :=
  queue.foldl (fun replica c => apply effect c replica) replica

@[simp] theorem replay_nil (replica : K → V) : replay effect [] replica = replica := rfl

@[simp] theorem replay_cons (c : C) (queue : List C) (replica : K → V) :
    replay effect (c :: queue) replica = replay effect queue (apply effect c replica) := rfl

@[simp] theorem replay_append (front back : List C) (replica : K → V) :
    replay effect (front ++ back) replica = replay effect back (replay effect front replica) :=
  List.foldl_append

/-- What is held says what the table says, and where nothing is held the queue brings the replica to
the table. -/
structure Tracks (table : K → V) (held queue : List C) (replica : K → V) : Prop where
  current : ∀ c ∈ held, ∀ k v, effect c k = some v → table k = v
  settled : ∀ k, (∃ c ∈ held, (effect c k).isSome) ∨ replay effect queue replica k = table k

variable {effect} {table table' : K → V} {held held' queue : List C} {replica : K → V}

/-- A change of the table, with the commands for it. No command that is held is overtaken. -/
theorem Tracks.record (tracks : Tracks effect table held queue replica)
    (kept : ∀ c ∈ held, c ∈ held')
    (new : ∀ c ∈ held', c ∈ held ∨ ∀ k v, effect c k = some v → table' k = v)
    (told : ∀ k, table' k = table k ∨ ∃ c ∈ held', (effect c k).isSome)
    (calm : ∀ c ∈ held, ∀ k, (effect c k).isSome → table' k = table k) :
    Tracks effect table' held' queue replica := by
  refine ⟨fun c member k v does => ?_, fun k => ?_⟩
  · rcases new c member with old | fresh
    · rw [calm c old k (by rw [does]; rfl)]
      exact tracks.current c old k v does
    · exact fresh k v does
  · rcases told k with same | fresh
    · rcases tracks.settled k with ⟨c, member, touches⟩ | reached
      · exact .inl ⟨c, kept c member, touches⟩
      · exact .inr (reached.trans same.symm)
    · exact .inl fresh

theorem Tracks.send (tracks : Tracks effect table held queue replica) {c : C} (own : c ∈ held)
    (fewer : ∀ d ∈ held', d ∈ held) (others : ∀ d ∈ held, d = c ∨ d ∈ held') :
    Tracks effect table held' (queue ++ [c]) replica := by
  refine ⟨fun d member => tracks.current d (fewer d member), fun k => ?_⟩
  have last : replay effect (queue ++ [c]) replica k =
      (effect c k).getD (replay effect queue replica k) := by
    rw [replay_append]
    rfl
  cases does : effect c k with
  | some v =>
    have told := tracks.current c own k v does
    exact .inr (by rw [last, does, told, Option.getD_some])
  | none =>
    rcases tracks.settled k with ⟨d, member, touches⟩ | reached
    · rcases others d member with rfl | still
      · rw [does] at touches
        cases touches
      · exact .inl ⟨d, still, touches⟩
    · exact .inr (by rw [last, does, Option.getD_none, reached])

theorem Tracks.execute {c : C} (tracks : Tracks effect table held (c :: queue) replica) :
    Tracks effect table held queue (apply effect c replica) :=
  ⟨tracks.current, tracks.settled⟩

theorem Tracks.drained (tracks : Tracks effect table [] [] replica) : replica = table :=
  funext fun k => (tracks.settled k).resolve_left fun ⟨_, member, _⟩ => List.not_mem_nil member

theorem tracks_self (table : K → V) : Tracks effect table [] [] table :=
  ⟨nofun, fun _ => .inr rfl⟩

end Lib.Replica
