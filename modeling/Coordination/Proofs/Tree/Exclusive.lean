import Coordination.Proofs.Registry.LivePointer
import Coordination.Proofs.Tree.Race

/-!
# Racing for a node

Programs that each begin with the creation of the same node race for it. The first creation
decides: its program goes on as it would alone, because from then on the others find the node
there and give up without a trace. The nodes that a creation adds above its own do not count,
so nothing else makes a program give up.
-/

namespace Coordination

/-- A call deletes no node but the one that it names. -/
theorem Tree.Change.has {t t' : Tree} {c : Call} {d : String} (h : Change t c t')
    (ht : t.Sound) (hd : t.Has d) (hc : c ≠ .delete d) : t'.Has d := by
  cases h with
  | none c => exact hd
  | create v hp _ => exact (has_created ht hp).2 (Or.inr (Or.inr hd))
  | set v hcell => exact (has_written hcell).2 hd
  | delete _ _ _ =>
    refine has_removed.2 ⟨?_, hd⟩
    rintro rfl
    exact hc rfl

/-- A node that is there cannot be created, and trying leaves no trace. -/
theorem Service.FaultFree.answer_create_of_has {s : Service} (hs : s.FaultFree) {p : String}
    (hp : Path.isValid p = true) (hhas : s.tree.Has p) (v : Bytes) :
    s.answer (.create p v) = (.error (.alreadyExists p), s) := by
  refine answer_error_eq hs.faults ?_
  rw [(answer_of_faults_eq_nil hs.faults _).1,
    Tree.respond_create_of_has hs.unlocked hp hhas]

/-- The program first creates the node at `d`. If it is there already, the program has lost
and ends; it never deletes the node. -/
def Program.Claims {α : Type} (d : String) (lost : α) (p : Program α) : Prop :=
  ∃ v next, p = .call (.create d v) next ∧
    (∀ path, next (.error (.alreadyExists path)) = .done lost) ∧
    ∀ reply, (next reply).Keeps (· ≠ .delete d) fun _ => True

namespace Race

variable {α : Type} {s : Service} {programs : List (Program α)} {d : String} {lost : α}
variable {w i : Nat} {now : Race α} {past : List Turn}

/-- Client `w` has created the node and goes on as it would alone. The others have lost or
have not tried yet, and no turn of theirs left a trace. -/
structure Taken (s : Service) (programs : List (Program α)) (d : String) (lost : α) (w : Nat)
    (now : Race α) (past : List Turn) : Prop where
  faultFree : now.service.FaultFree
  sound : now.service.tree.Sound
  there : now.service.tree.Has d
  winner : ∃ p q, programs[w]? = some p ∧ now.clients[w]? = some q ∧
    now.service.run q = s.run p ∧ q.Keeps (· ≠ .delete d) fun _ => True
  others : ∀ i p, i ≠ w → programs[i]? = some p →
    now.clients[i]? = some p ∨ now.clients[i]? = some (.done lost)
  length : now.clients.length = programs.length
  traceless : ∀ x ∈ past, x.client ≠ w → x.after = x.before

/-- The winner goes on, and does not delete the node. -/
theorem Taken.turn_winner (h : Taken s programs d lost w now past) {c : Call}
    {next : Except TreeError c.Reply → Program α}
    (hclient : now.clients[w]? = some (.call c next)) :
    Taken s programs d lost w (now.turn w) (past ++ [now.called w c]) := by
  obtain ⟨p, q, hprogram, hq, hrun, hkeeps⟩ := h.winner
  cases hclient.symm.trans hq
  refine ⟨?_, ?_, ?_, ⟨p, _, hprogram, client_turn_self hclient, ?_, hkeeps.2 _⟩, ?_, ?_, ?_⟩
  · rw [turn_of_call hclient]
    exact h.faultFree.answer c
  · rw [turn_of_call hclient]
    exact (now.service.change_answer c).sound h.sound
  · rw [turn_of_call hclient]
    exact (now.service.change_answer c).has h.sound h.there hkeeps.1
  · rw [turn_of_call hclient]
    exact hrun
  · intro j p' hj hp'
    rw [client_turn_of_ne now (Ne.symm hj)]
    exact h.others j p' hj hp'
  · rw [length_turn, h.length]
  · intro x hx hne
    rcases List.mem_append.1 hx with hx | hx
    · exact h.traceless x hx hne
    · cases List.mem_singleton.1 hx
      exact absurd rfl hne

section

variable (hp : Path.isValid d = true) (hclaims : ∀ p ∈ programs, p.Claims d lost)

include hp hclaims

/-- The first turn creates the node, as the winner's program would alone. -/
theorem taken_of_first {c : Call} {next : Except TreeError c.Reply → Program α}
    (hs : s.FaultFree) (hsound : s.tree.Sound) (hmissing : ¬ s.tree.Has d)
    (hclient : programs[i]? = some (.call c next)) :
    Taken s programs d lost i (turn ⟨programs, s⟩ i) (turn? ⟨programs, s⟩ i).toList := by
  obtain ⟨v, next', heq, _, hkeeps⟩ := hclaims _ (List.mem_of_getElem? hclient)
  cases heq
  have hnow : (⟨programs, s⟩ : Race α).clients[i]? = some (.call (.create d v) next') := hclient
  obtain ⟨n, hcreate⟩ := Tree.respond_create_of_not_has hs.unlocked hp hmissing v
  have htree : (s.answer (.create d v)).2.tree = s.tree.created d v := by
    rw [(Service.answer_of_faults_eq_nil hs.faults _).2.1, hcreate]
  refine ⟨?_, ?_, ?_, ⟨_, _, hclient, client_turn_self hnow, ?_, hkeeps _⟩, ?_, ?_, ?_⟩
  · rw [turn_of_call hnow]
    exact hs.answer _
  · rw [turn_of_call hnow]
    exact (s.change_answer _).sound hsound
  · rw [turn_of_call hnow]
    show (s.answer (.create d v)).2.tree.Has d
    rw [htree, Tree.has_created hsound hp]
    exact Or.inl rfl
  · rw [turn_of_call hnow]
    rfl
  · intro j q hj hq
    left
    rw [client_turn_of_ne _ (Ne.symm hj)]
    exact hq
  · rw [length_turn]
  · intro x hx hne
    rw [turn?_of_call hnow] at hx
    cases List.mem_singleton.1 hx
    exact absurd rfl hne

/-- Another client finds the node there and gives up. -/
theorem Taken.turn_other (h : Taken s programs d lost w now past) {c : Call}
    {next : Except TreeError c.Reply → Program α}
    (hclient : now.clients[i]? = some (.call c next)) (hi : i ≠ w) :
    Taken s programs d lost w (now.turn i) (past ++ [now.called i c]) := by
  have hlen : i < programs.length := by
    rw [← h.length]
    exact lt_length_of_client hclient
  have hprogram := List.getElem?_eq_getElem hlen
  have hinitial : now.clients[i]? = some programs[i] := by
    rcases h.others i _ hi hprogram with hsame | hlost
    · exact hsame
    · cases hclient.symm.trans hlost
  obtain ⟨v, next', heq, hlost, _⟩ := hclaims _ (List.getElem_mem hlen)
  rw [hclient, heq] at hinitial
  cases hinitial
  have hanswer := h.faultFree.answer_create_of_has hp h.there v
  have hturn : now.turn i = ⟨now.clients.set i (.done lost), now.service⟩ := by
    rw [turn_of_call hclient, hanswer, hlost]
  have hcalled : (now.called i (.create d v)).after = now.service := congrArg Prod.snd hanswer
  rw [hturn]
  refine ⟨h.faultFree, h.sound, h.there, ?_, fun j p' hj hp' => ?_, ?_, fun x hx hne => ?_⟩
  · obtain ⟨p, q, hp', hq, hrun⟩ := h.winner
    exact ⟨p, q, hp', (List.getElem?_set_ne hi).trans hq, hrun⟩
  · by_cases hij : i = j
    · subst hij
      right
      exact List.getElem?_set_self (lt_length_of_client hclient)
    · have hsame : (now.clients.set i (.done lost))[j]? = now.clients[j]? :=
        List.getElem?_set_ne hij
      show (now.clients.set i (.done lost))[j]? = some p' ∨ _
      rw [hsame]
      exact h.others j p' hj hp'
  · rw [List.length_set, h.length]
  · rcases List.mem_append.1 hx with hx | hx
    · exact h.traceless x hx hne
    · cases List.mem_singleton.1 hx
      exact hcalled

/-- Once the node is taken, it stays so. -/
theorem Taken.turn (h : Taken s programs d lost w now past) (i : Nat) :
    Taken s programs d lost w (now.turn i) (past ++ (now.turn? i).toList) := by
  rcases now.turn_cases i with ⟨c, next, hclient⟩ | ⟨hidle, hnothing⟩
  · rw [turn?_of_call hclient]
    by_cases hi : i = w
    · subst hi
      exact h.turn_winner hclient
    · exact h.turn_other hp hclaims hclient hi
  · rw [hidle, hnothing, Option.toList_none, List.append_nil]
    exact h

/-- As long as nobody made a call nothing happened; then the node is taken. -/
theorem idle_or_taken (hs : s.FaultFree) (hsound : s.tree.Sound) (hmissing : ¬ s.tree.Has d)
    (turns : List Nat) :
    after ⟨programs, s⟩ turns = ⟨programs, s⟩ ∨
      ∃ w, Taken s programs d lost w (after ⟨programs, s⟩ turns) (log ⟨programs, s⟩ turns) := by
  have hboth : (after ⟨programs, s⟩ turns = ⟨programs, s⟩ ∧ log ⟨programs, s⟩ turns = []) ∨
      ∃ w, Taken s programs d lost w (after ⟨programs, s⟩ turns)
        (log ⟨programs, s⟩ turns) := by
    refine invariant (I := fun now past => (now = ⟨programs, s⟩ ∧ past = []) ∨
      ∃ w, Taken s programs d lost w now past) (Or.inl ⟨rfl, rfl⟩) ?_ turns
    rintro now past i (⟨rfl, rfl⟩ | ⟨w, h⟩)
    · rcases turn_cases ⟨programs, s⟩ i with ⟨c, next, hclient⟩ | ⟨hidle, hnothing⟩
      · exact Or.inr ⟨i, taken_of_first hp hclaims hs hsound hmissing hclient⟩
      · left
        rw [hidle, hnothing]
        exact ⟨rfl, rfl⟩
    · exact Or.inr ⟨w, h.turn hp hclaims i⟩
  exact hboth.imp_left And.left

/-- Of programs that race for a node that is missing, one runs as it would alone, and all
others lose without a trace. -/
theorem exists_winner (hs : s.FaultFree) (hsound : s.tree.Sound) (hmissing : ¬ s.tree.Has d)
    (hsome : programs ≠ []) (turns : List Nat)
    (hfinished : (after ⟨programs, s⟩ turns).Finished) :
    ∃ w p, programs[w]? = some p ∧
      result? (after ⟨programs, s⟩ turns) w = some (s.run p).1 ∧
      (after ⟨programs, s⟩ turns).service = (s.run p).2 ∧
      (∀ i < programs.length, i ≠ w → result? (after ⟨programs, s⟩ turns) i = some lost) ∧
      ∀ x ∈ log ⟨programs, s⟩ turns, x.client ≠ w → x.after = x.before := by
  rcases idle_or_taken hp hclaims hs hsound hmissing turns with hidle | ⟨w, h⟩
  · -- A program that has made no call has not ended.
    obtain ⟨p, hmem⟩ := List.exists_mem_of_ne_nil _ hsome
    obtain ⟨v, next, rfl, _⟩ := hclaims p hmem
    rw [hidle] at hfinished
    cases hfinished _ hmem
  · have hended {i : Nat} (hi : i < programs.length) :=
      hfinished.exists_result (by rwa [h.length] : i < (after ⟨programs, s⟩ turns).clients.length)
    obtain ⟨p, q, hprogram, hq, hrun, _⟩ := h.winner
    obtain ⟨a, ha⟩ := hended (List.getElem?_eq_some_iff.1 hprogram).1
    cases hq.symm.trans ha
    have hresult : (a, (after ⟨programs, s⟩ turns).service) = s.run p := hrun
    refine ⟨w, p, hprogram, ?_, ?_, fun i hi hne => ?_, h.traceless⟩
    · rw [result?_eq_some_iff, ha, ← hresult]
    · rw [← hresult]
    · obtain ⟨b, hb⟩ := hended hi
      rw [result?_eq_some_iff]
      rcases h.others i _ hne (List.getElem?_eq_getElem hi) with hsame | hlost
      · obtain ⟨v, next, heq, _⟩ := hclaims _ (List.getElem_mem hi)
        rw [hb, heq] at hsame
        cases hsame
      · exact hlost

end

end Race

end Coordination
