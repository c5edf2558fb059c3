import Coordination.Proofs.Tree.Trace
import Mathlib.Data.List.Induction

/-!
# Programs at the same time

Clients run programs on one service at the same time. Calls are atomic and programs are not:
in a turn one client makes its next call, and between two turns of a client any others may
come. Nothing is said about whose turn it is, so what holds after every list of turns holds
for every interleaving. What happened is kept turn by turn.
-/

namespace Coordination

/-- What a program has come to, if it has ended. -/
def Program.result? {α : Type} : Program α → Option α
  | .done a => some a
  | .call .. => none

/-- Clients at work: what each has left to do, and the service that they share. -/
structure Race (α : Type) where
  clients : List (Program α)
  service : Service

/-- What happened in a turn: the call that a client made, the error that it failed with, if
it failed, and the service before and after it. -/
structure Turn where
  client : Nat
  call : Call
  failure : Option TreeError
  before : Service
  after : Service

namespace Race

variable {α : Type}

/-- One client makes its next call, if it has one left. -/
def turn (race : Race α) (i : Nat) : Race α :=
  match race.clients[i]? with
  | some (.call c next) =>
    ⟨race.clients.set i (next (race.service.answer c).1), (race.service.answer c).2⟩
  | _ => race

/-- What happens if it is a client's turn, if it has anything left to do. -/
def turn? (race : Race α) (i : Nat) : Option Turn :=
  match race.clients[i]? with
  | some (.call c _) =>
    some ⟨i, c, Call.failure? (race.service.answer c).1, race.service, (race.service.answer c).2⟩
  | _ => none

/-- The clients and the service after turns. -/
def after (race : Race α) (turns : List Nat) : Race α := turns.foldl turn race

/-- What happens in turns, in order. -/
def log (race : Race α) : List Nat → List Turn
  | [] => []
  | i :: rest => (race.turn? i).toList ++ (race.turn i).log rest

/-- What a client has come to, if it has ended. -/
def result? (race : Race α) (i : Nat) : Option α := race.clients[i]?.bind Program.result?

/-- All clients have ended. -/
def Finished (race : Race α) : Prop := ∀ p ∈ race.clients, p.result?.isSome = true

instance (race : Race α) : Decidable race.Finished := List.decidableBAll _ _

/-- The turn of a client that makes a call. -/
def called (race : Race α) (i : Nat) (c : Call) : Turn :=
  ⟨i, c, Call.failure? (race.service.answer c).1, race.service, (race.service.answer c).2⟩

/-! ## Turns -/

variable {race : Race α} {i j : Nat} {a : α} {p : Program α} {c : Call}
variable {next : Except TreeError c.Reply → Program α}

theorem turn_of_call (h : race.clients[i]? = some (.call c next)) :
    race.turn i =
      ⟨race.clients.set i (next (race.service.answer c).1), (race.service.answer c).2⟩ := by
  rw [turn, h]

theorem turn?_of_call (h : race.clients[i]? = some (.call c next)) :
    race.turn? i = some (race.called i c) := by
  rw [turn?, h]
  rfl

/-- It is the turn of a client that has a call to make, or nothing happens. -/
theorem turn_cases (race : Race α) (i : Nat) :
    (∃ c next, race.clients[i]? = some (.call c next)) ∨
      race.turn i = race ∧ race.turn? i = none := by
  cases hclient : race.clients[i]? with
  | none => exact Or.inr ⟨by rw [turn, hclient], by rw [turn?, hclient]⟩
  | some p =>
    cases p with
    | done a => exact Or.inr ⟨by rw [turn, hclient], by rw [turn?, hclient]⟩
    | call c next => exact Or.inl ⟨c, next, rfl⟩

theorem length_turn (race : Race α) (i : Nat) :
    (race.turn i).clients.length = race.clients.length := by
  rcases race.turn_cases i with ⟨c, next, hclient⟩ | ⟨hidle, _⟩
  · rw [turn_of_call hclient, List.length_set]
  · rw [hidle]

theorem lt_length_of_client (h : race.clients[i]? = some p) : i < race.clients.length :=
  (List.getElem?_eq_some_iff.1 h).1

/-- A turn moves on the client whose turn it is. -/
theorem client_turn_self (h : race.clients[i]? = some (.call c next)) :
    (race.turn i).clients[i]? = some (next (race.service.answer c).1) := by
  rw [turn_of_call h, List.getElem?_set_self (lt_length_of_client h)]

/-- The other clients stay where they are. -/
theorem client_turn_of_ne (race : Race α) (hne : i ≠ j) :
    (race.turn i).clients[j]? = race.clients[j]? := by
  rcases race.turn_cases i with ⟨c, next, hclient⟩ | ⟨hidle, _⟩
  · rw [turn_of_call hclient, List.getElem?_set_ne hne]
  · rw [hidle]

/-! ## Lists of turns -/

theorem after_append (race : Race α) (turns turns' : List Nat) :
    race.after (turns ++ turns') = (race.after turns).after turns' := List.foldl_append

theorem after_concat (race : Race α) (turns : List Nat) (i : Nat) :
    race.after (turns ++ [i]) = (race.after turns).turn i := race.after_append turns [i]

theorem log_append (race : Race α) (turns turns' : List Nat) :
    race.log (turns ++ turns') = race.log turns ++ (race.after turns).log turns' := by
  induction turns generalizing race with
  | nil => rfl
  | cons i rest ih =>
    show (race.turn? i).toList ++ (race.turn i).log (rest ++ turns') = _
    rw [ih, ← List.append_assoc]
    rfl

theorem log_concat (race : Race α) (turns : List Nat) (i : Nat) :
    race.log (turns ++ [i]) = race.log turns ++ ((race.after turns).turn? i).toList := by
  rw [log_append]
  exact congrArg _ (List.append_nil _)

theorem length_after (race : Race α) (turns : List Nat) :
    (race.after turns).clients.length = race.clients.length := by
  induction turns generalizing race with
  | nil => rfl
  | cons i rest ih => exact (ih (race.turn i)).trans (race.length_turn i)

/-- What the start has and every turn preserves, together with what happened, holds after all
turns. -/
theorem invariant {I : Race α → List Turn → Prop} (hstart : I race [])
    (hstep : ∀ now past i, I now past → I (now.turn i) (past ++ (now.turn? i).toList))
    (turns : List Nat) : I (race.after turns) (race.log turns) := by
  induction turns using List.reverseRecOn with
  | nil => exact hstart
  | append_singleton turns i ih =>
    rw [after_concat, log_concat]
    exact hstep _ _ i ih

/-! ## Every interleaving can be brought to an end -/

/-- A client that is let alone runs its program. -/
theorem exists_alone (h : race.clients[i]? = some p) :
    ∃ n, race.after (List.replicate n i) =
      ⟨race.clients.set i (.done (race.service.run p).1), (race.service.run p).2⟩ := by
  induction p generalizing race with
  | done a =>
    refine ⟨0, ?_⟩
    show race = ⟨race.clients.set i (.done a), race.service⟩
    obtain ⟨hi, hget⟩ := List.getElem?_eq_some_iff.1 h
    rw [← hget, List.set_getElem_self]
  | call c next ih =>
    obtain ⟨n, hn⟩ := ih _ (client_turn_self h)
    refine ⟨n + 1, ?_⟩
    show (race.turn i).after (List.replicate n i) = _
    rw [hn, turn_of_call h, List.set_set]
    rfl

theorem result?_eq_some_iff : race.result? i = some a ↔ race.clients[i]? = some (.done a) := by
  rw [result?, Option.bind_eq_some_iff]
  constructor
  · rintro ⟨p, hp, hresult⟩
    cases p with
    | done b =>
      cases hresult
      exact hp
    | call c next => cases hresult
  · intro h
    exact ⟨.done a, h, rfl⟩

/-- Each client in a finished race has come to something. -/
theorem Finished.exists_result (h : race.Finished) (hi : i < race.clients.length) :
    ∃ a, race.clients[i]? = some (.done a) := by
  have hclient := List.getElem?_eq_getElem hi
  cases hp : race.clients[i] with
  | done a => exact ⟨a, by rw [hclient, hp]⟩
  | call c next =>
    have hended := h _ (List.getElem_mem hi)
    rw [hp] at hended
    cases hended

/-- Whatever turns there were, the clients can all come to an end. -/
theorem exists_finished (race : Race α) : ∃ turns, (race.after turns).Finished := by
  -- One client after the other is let alone; those before it have ended and stay so.
  have hended : ∀ n, ∃ turns, ∀ i < n, i < race.clients.length →
      ∃ a, (race.after turns).clients[i]? = some (.done a) := by
    intro n
    induction n with
    | zero => exact ⟨[], fun i hi => absurd hi (Nat.not_lt_zero i)⟩
    | succ n ih =>
      obtain ⟨turns, hturns⟩ := ih
      by_cases hn : n < race.clients.length
      · have hn' : n < (race.after turns).clients.length := by
          rw [length_after]
          exact hn
        obtain ⟨m, hm⟩ := exists_alone (List.getElem?_eq_getElem hn')
        refine ⟨turns ++ List.replicate m n, fun i hi hlen => ?_⟩
        rw [after_append, hm]
        by_cases heq : n = i
        · subst heq
          exact ⟨_, List.getElem?_set_self hn'⟩
        · obtain ⟨a, ha⟩ := hturns i (by omega) hlen
          exact ⟨a, (List.getElem?_set_ne heq).trans ha⟩
      · exact ⟨turns, fun i hi hlen => hturns i (by omega) hlen⟩
  obtain ⟨turns, hturns⟩ := hended race.clients.length
  refine ⟨turns, fun p hp => ?_⟩
  obtain ⟨i, hi, rfl⟩ := List.mem_iff_getElem.1 hp
  obtain ⟨a, ha⟩ := hturns i (by rwa [length_after] at hi) (by rwa [length_after] at hi)
  rw [List.getElem?_eq_getElem hi] at ha
  rw [Option.some.inj ha]
  rfl

end Race

end Coordination
