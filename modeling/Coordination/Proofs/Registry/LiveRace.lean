import Coordination.Proofs.Registry.DirectoryChange
import Coordination.Proofs.Registry.Standard
import Coordination.Proofs.Tree.Storing

/-!
# Racing to make a release live

A release is made live by storing the pointer of its service and then the node that watchers of
the service watch. Where several clients do so at the same time, the pointer that was written
last stays, and its writer still has to write the watched node. So watchers who read the
pointer whenever they are told end up with it, unless the two nodes are one and the same: then
the second store takes the place of the pointer.
-/

namespace Coordination

/-- The call neither writes the pointer nor deletes the pointer or the watched node. -/
def Call.LeavesPointer (live watched : String) (c : Call) : Prop :=
  (c.isWrite = true → c.path ≠ live) ∧ c ≠ .delete watched

theorem Call.LeavesPointer.ne_delete {live watched : String} {c : Call}
    (h : c.LeavesPointer live watched) : c ≠ .delete live := by
  rintro rfl
  exact h.1 rfl rfl

namespace Race

/-! ## Stages of a client -/

/-- The client still has to write the pointer, and then the watched node. -/
def Pointing (live watched : String) (v w : Bytes) (t : Tree)
    (q : Program (Except RegistryError Unit)) : Prop :=
  Program.ToStore live v (Action.put watched w).run t q

/-- The client has written the pointer and still has to write the watched node. -/
def Touching (watched : String) (w : Bytes) (t : Tree)
    (q : Program (Except RegistryError Unit)) : Prop :=
  Program.ToStore watched w (.done (.ok ())) t q

variable {live watched : String} {v w : Bytes} {values : List Bytes} {t t' : Tree} {i : Nat}
variable {q : Program (Except RegistryError Unit)}
variable {now : Race (Except RegistryError Unit)} {past : List Turn}

theorem Pointing.not_touching (h : Pointing live watched v w t q) (hne : live ≠ watched) :
    ¬ Touching watched w t q := by
  rintro ⟨_, htouching, _⟩
  obtain ⟨_, hpointing, _⟩ := h
  obtain ⟨c, next, rfl⟩ := hpointing.exists_call
  exact hne (hpointing.call_eq.1.symm.trans htouching.call_eq.1)

/-! ## The last write of the pointer -/

/-- The pointer was last written in a turn of the client whose pointer it holds. Since then it
stayed, and either that client still has to write the watched node or watchers were told. -/
def Pointed (live watched : String) (w : Bytes) (values : List Bytes)
    (now : Race (Except RegistryError Unit)) (past : List Turn) : Prop :=
  ∃ before x later v, past = before ++ x :: later ∧ values[x.client]? = some v ∧
    x.Stores live v ∧ now.service.tree.value? live = some v ∧
    (∀ y ∈ later, ¬ y.Writes live ∧ y.after.tree.value? live = some v) ∧
    ((∃ q, now.clients[x.client]? = some q ∧ Touching watched w now.service.tree q) ∨
      ∃ y ∈ later, y.announces watched = true)

section

variable {c : Call} {next : Except TreeError c.Reply → Program (Except RegistryError Unit)}

/-- A turn that does not write the pointer leaves it as it is. If it is one of the last writer,
that client still has to write the watched node afterwards, or watchers were told. -/
theorem Pointed.turn (h : Pointed live watched w values now past)
    (hclient : now.clients[i]? = some (.call c next)) (hsound : now.service.tree.Sound)
    (hwrites : ¬ (called now i c).Writes live)
    (hvalue : (now.service.answer c).2.tree.value? live = now.service.tree.value? live)
    (hwatched : c ≠ .delete watched)
    (hself : ∀ v, values[i]? = some v → Touching watched w now.service.tree (.call c next) →
      Touching watched w (now.service.answer c).2.tree (next (now.service.answer c).1) ∨
        (called now i c).announces watched = true) :
    Pointed live watched w values (now.turn i) (past ++ [called now i c]) := by
  obtain ⟨before, x, later, v, rfl, hx, hstores, hnow, hlater, htold⟩ := h
  have hafter : (now.turn i).service = (now.service.answer c).2 := by
    rw [turn_of_call hclient]
  refine ⟨before, x, later ++ [called now i c], v, by simp, hx, hstores, ?_, ?_, ?_⟩
  · rw [hafter, hvalue, hnow]
  · intro y hy
    rcases List.mem_append.1 hy with hy | hy
    · exact hlater y hy
    · cases List.mem_singleton.1 hy
      exact ⟨hwrites, hvalue.trans hnow⟩
  · rcases htold with ⟨q, hq, htouching⟩ | ⟨y, hy, hann⟩
    · by_cases hi : i = x.client
      · rw [← hi] at hx hq ⊢
        cases hq.symm.trans hclient
        rcases hself v hx htouching with hstill | htold
        · left
          rw [hafter]
          exact ⟨_, client_turn_self hclient, hstill⟩
        · exact Or.inr ⟨_, by simp, htold⟩
      · left
        refine ⟨q, (client_turn_of_ne now hi).trans hq, ?_⟩
        rw [hafter]
        exact htouching.mono fun hhas => (now.service.change_answer c).has hsound hhas hwatched
    · exact Or.inr ⟨y, by simp [hy], hann⟩

/-! ## All clients -/

/-- Each client that makes a release live is at one of its stages, and the pointer was written
if one of them is past its first stage. The others leave the pointer alone. -/
structure Racing (live watched : String) (w : Bytes) (values : List Bytes)
    (now : Race (Except RegistryError Unit)) (past : List Turn) : Prop where
  faultFree : now.service.FaultFree
  sound : now.service.tree.Sound
  pointer : ∀ (i : Nat) (v : Bytes), values[i]? = some v → ∃ q, now.clients[i]? = some q ∧
    (Pointing live watched v w now.service.tree q ∨
      (Touching watched w now.service.tree q ∨ q = .done (.ok ())) ∧
        Pointed live watched w values now past)
  other : ∀ (i : Nat) (q : Program (Except RegistryError Unit)), values[i]? = none →
    now.clients[i]? = some q → q.Keeps (Call.LeavesPointer live watched) fun _ => True

/-- What a turn has to keep: that the pointer was written, and the stage of its client. -/
theorem Racing.of_turn (h : Racing live watched w values now past)
    (hclient : now.clients[i]? = some (.call c next)) (hlive : c ≠ .delete live)
    (hwatched : c ≠ .delete watched)
    (hpointed : Pointed live watched w values now past →
      Pointed live watched w values (now.turn i) (past ++ [called now i c]))
    (hself : ∀ v, values[i]? = some v →
      Pointing live watched v w (now.service.answer c).2.tree (next (now.service.answer c).1) ∨
      (Touching watched w (now.service.answer c).2.tree (next (now.service.answer c).1) ∨
        next (now.service.answer c).1 = .done (.ok ())) ∧
        Pointed live watched w values (now.turn i) (past ++ [called now i c]))
    (hother : values[i]? = none →
      (next (now.service.answer c).1).Keeps (Call.LeavesPointer live watched) fun _ => True) :
    Racing live watched w values (now.turn i) (past ++ [called now i c]) := by
  have hchange := now.service.change_answer c
  have hafter : (now.turn i).service = (now.service.answer c).2 := by
    rw [turn_of_call hclient]
  refine ⟨?_, ?_, fun j v hj => ?_, fun j q hj hq => ?_⟩
  · rw [hafter]
    exact h.faultFree.answer c
  · rw [hafter]
    exact hchange.sound h.sound
  · by_cases hij : i = j
    · subst hij
      refine ⟨_, client_turn_self hclient, ?_⟩
      rw [hafter]
      exact hself v hj
    · obtain ⟨q, hq, hstage⟩ := h.pointer j v hj
      refine ⟨q, (client_turn_of_ne now hij).trans hq, ?_⟩
      rw [hafter]
      rcases hstage with hpointing | ⟨htouching | hended, hdone⟩
      · exact Or.inl (hpointing.mono fun hhas => hchange.has h.sound hhas hlive)
      · exact Or.inr ⟨Or.inl (htouching.mono fun hhas => hchange.has h.sound hhas hwatched),
          hpointed hdone⟩
      · exact Or.inr ⟨Or.inr hended, hpointed hdone⟩
  · by_cases hij : i = j
    · subst hij
      cases (client_turn_self hclient).symm.trans hq
      exact hother hj
    · rw [client_turn_of_ne now hij] at hq
      exact h.other j q hj hq

/-- The turn of a client that makes a release live. -/
theorem Racing.of_own_turn (h : Racing live watched w values now past)
    (hclient : now.clients[i]? = some (.call c next)) (hv : values[i]? = some v)
    (hdelete : ∀ p, c ≠ .delete p)
    (hpointed : Pointed live watched w values now past →
      Pointed live watched w values (now.turn i) (past ++ [called now i c]))
    (hself : Pointing live watched v w (now.service.answer c).2.tree
        (next (now.service.answer c).1) ∨
      (Touching watched w (now.service.answer c).2.tree (next (now.service.answer c).1) ∨
        next (now.service.answer c).1 = .done (.ok ())) ∧
        Pointed live watched w values (now.turn i) (past ++ [called now i c])) :
    Racing live watched w values (now.turn i) (past ++ [called now i c]) := by
  refine h.of_turn hclient (hdelete _) (hdelete _) hpointed (fun v' hv' => ?_) fun hnone => ?_
  · cases hv.symm.trans hv'
    exact hself
  · rw [hv] at hnone
    cases hnone

theorem Pointed.has_live (h : Pointed live watched w values now past) :
    now.service.tree.Has live := by
  obtain ⟨_, _, _, v, _, _, _, hnow, _⟩ := h
  exact Tree.has_iff_value?.2 ⟨v, hnow⟩

/-- A client that makes nothing live takes a turn. -/
theorem Racing.turn_other (h : Racing live watched w values now past)
    (hclient : now.clients[i]? = some (.call c next)) (hv : values[i]? = none) :
    Racing live watched w values (now.turn i) (past ++ [called now i c]) := by
  obtain ⟨hcall, hrest⟩ := h.other i _ hv hclient
  refine h.of_turn hclient hcall.ne_delete hcall.2 (fun hpointed => ?_)
    (fun v hsome => by rw [hv] at hsome; cases hsome) fun _ => hrest _
  refine hpointed.turn hclient h.sound (fun hwrites => hcall.1 hwrites.2.1 hwrites.2.2)
    ((now.service.change_answer c).value_of_has h.sound hpointed.has_live hcall.1) hcall.2
    fun v hsome => ?_
  rw [hv] at hsome
  cases hsome

/-- A client that still has to write the pointer takes a turn. If it writes the pointer, this is
the last write of it now. -/
theorem Racing.turn_pointing (h : Racing live watched w values now past)
    (hclient : now.clients[i]? = some (.call c next)) (hv : values[i]? = some v)
    (hstage : Pointing live watched v w now.service.tree (.call c next))
    (hlive : Path.isValid live = true) (hne : live ≠ watched) :
    Racing live watched w values (now.turn i) (past ++ [called now i c]) := by
  have hnot := hstage.not_touching hne
  have hdelete := hstage.call_eq.2
  rcases hstage.step h.faultFree h.sound hlive with ⟨hsame, hnext, hfails⟩ | ⟨hnext, hstored⟩
  · refine h.of_own_turn hclient hv hdelete (fun hpointed => ?_) (Or.inl ?_)
    · exact hpointed.turn hclient h.sound (fun hwrites => hfails hwrites.2.1 hwrites.1)
        (by rw [hsame]) (hdelete _) fun _ _ htouching => absurd htouching hnot
    · rw [hsame]
      exact hnext
  · have htouching : Touching watched w (now.service.answer c).2.tree
        (next (now.service.answer c).1) := by
      rw [hnext]
      exact Program.ToStore.put
    have hafter : (now.turn i).service = (now.service.answer c).2 := by
      rw [turn_of_call hclient]
    have hpointed : Pointed live watched w values (now.turn i) (past ++ [called now i c]) := by
      refine ⟨past, called now i c, [], v, rfl, hv, ⟨hstored.succeeds, hstored.call⟩, ?_,
        fun y hy => absurd hy List.not_mem_nil, Or.inl ⟨_, client_turn_self hclient, ?_⟩⟩
      · rw [hafter]
        exact hstored.value
      · rw [hafter]
        exact htouching
    exact h.of_own_turn hclient hv hdelete (fun _ => hpointed)
      (Or.inr ⟨Or.inl htouching, hpointed⟩)

/-- A client that still has to write the watched node takes a turn. If it writes the node,
watchers are told. -/
theorem Racing.turn_touching (h : Racing live watched w values now past)
    (hclient : now.clients[i]? = some (.call c next)) (hv : values[i]? = some v)
    (hstage : Touching watched w now.service.tree (.call c next))
    (hdone : Pointed live watched w values now past) (hwatched : Path.isValid watched = true)
    (hne : live ≠ watched) :
    Racing live watched w values (now.turn i) (past ++ [called now i c]) := by
  obtain ⟨hpath, hdelete⟩ := hstage.call_eq
  have helsewhere : c.isWrite = true → c.path ≠ live := fun _ heq =>
    hne (heq.symm.trans hpath)
  have hkeep := hdone.turn hclient h.sound (fun hwrites => helsewhere hwrites.2.1 hwrites.2.2)
    ((now.service.change_answer c).value_of_has h.sound hdone.has_live helsewhere) (hdelete _)
  rcases hstage.step h.faultFree h.sound hwatched with ⟨hsame, hnext, _⟩ | ⟨hnext, hstored⟩
  · have htouching : Touching watched w (now.service.answer c).2.tree
        (next (now.service.answer c).1) := by
      rw [hsame]
      exact hnext
    have hpointed := hkeep fun _ _ _ => Or.inl htouching
    exact h.of_own_turn hclient hv hdelete (fun _ => hpointed)
      (Or.inr ⟨Or.inl htouching, hpointed⟩)
  · have hpointed := hkeep fun _ _ _ => Or.inr (hstored.event i)
    exact h.of_own_turn hclient hv hdelete (fun _ => hpointed) (Or.inr ⟨Or.inr hnext, hpointed⟩)

end

section

variable (hlive : Path.isValid live = true) (hwatched : Path.isValid watched = true)
variable (hne : live ≠ watched)

include hlive hwatched hne

/-- Every turn keeps the clients at their stages. -/
theorem Racing.turn (h : Racing live watched w values now past) (i : Nat) :
    Racing live watched w values (now.turn i) (past ++ (now.turn? i).toList) := by
  rcases now.turn_cases i with ⟨c, next, hclient⟩ | ⟨hidle, hnothing⟩
  · have hlog : (now.turn? i).toList = [called now i c] := by
      rw [turn?_of_call hclient]
      rfl
    rw [hlog]
    cases hv : values[i]? with
    | none => exact h.turn_other hclient hv
    | some v =>
      obtain ⟨q, hq, hstage⟩ := h.pointer i v hv
      cases hq.symm.trans hclient
      rcases hstage with hpointing | ⟨htouching | hended, hdone⟩
      · exact h.turn_pointing hclient hv hpointing hlive hne
      · exact h.turn_touching hclient hv htouching hdone hwatched hne
      · cases hended
  · rw [hidle, hnothing, Option.toList_none, List.append_nil]
    exact h

end

/-- A client that has come to an end has made its release live. -/
theorem Racing.ended (h : Racing live watched w values now past) (hfinished : now.Finished)
    (hv : values[i]? = some v) :
    now.clients[i]? = some (.done (.ok ())) ∧ Pointed live watched w values now past := by
  obtain ⟨q, hq, hstage⟩ := h.pointer i v hv
  obtain ⟨a, ha⟩ := hfinished.exists_result (lt_length_of_client hq)
  cases ha.symm.trans hq
  rcases hstage with hpointing | ⟨htouching | hended, hpointed⟩
  · exact absurd rfl hpointing.not_ended
  · exact absurd rfl htouching.not_ended
  · rw [← hended]
    exact ⟨hq, hpointed⟩

/-- When all have come to an end, watchers were told after the last write of the pointer. -/
theorem Pointed.told (h : Pointed live watched w values now past)
    (hended : ∀ (i : Nat) (v : Bytes), values[i]? = some v →
      now.clients[i]? = some (.done (.ok ()))) :
    ∃ before x later v, past = before ++ x :: later ∧ values[x.client]? = some v ∧
      x.Stores live v ∧ now.service.tree.value? live = some v ∧
      (∀ y ∈ later, ¬ y.Writes live ∧ y.after.tree.value? live = some v) ∧
      ∃ y ∈ later, y.announces watched = true := by
  obtain ⟨before, x, later, v, hpast, hv, hstores, hnow, hlater, htold⟩ := h
  refine ⟨before, x, later, v, hpast, hv, hstores, hnow, hlater, ?_⟩
  rcases htold with ⟨q, hq, htouching⟩ | htold
  · cases hq.symm.trans (hended _ _ hv)
    exact absurd rfl htouching.not_ended
  · exact htold

end Race

/-! ## Watchers -/

/-- What is read of a path by someone who reads it after every turn in which watches of another
path are told that its node was created or changed. -/
def Turn.readings (watched live : String) (log : List Turn) : List (Option Bytes) :=
  (log.filter (·.announces watched)).map fun x => x.after.tree.value? live

/-- Where watches are told once more while the value stays, it is what is read last. -/
theorem Turn.getLast?_readings {watched live : String} {v : Bytes} {earlier later : List Turn}
    (htold : ∃ y ∈ later, y.announces watched = true)
    (hvalue : ∀ y ∈ later, y.after.tree.value? live = some v) :
    (readings watched live (earlier ++ later)).getLast? = some (some v) := by
  have hsplit : readings watched live (earlier ++ later) =
      readings watched live earlier ++ readings watched live later := by
    rw [readings, List.filter_append, List.map_append]
    rfl
  have hsome : readings watched live later ≠ [] := by
    obtain ⟨y, hy, hann⟩ := htold
    exact List.ne_nil_of_mem (List.mem_map_of_mem (List.mem_filter.2 ⟨hy, hann⟩))
  rw [hsplit, List.getLast?_append, List.getLast?_eq_some_getLast hsome, Option.some_or]
  obtain ⟨y, hy, hread⟩ := List.mem_map.1 (List.getLast_mem hsome)
  rw [← hread, hvalue y (List.mem_filter.1 hy).1]

namespace Registry

/-- After the turns all releases were made live. One of the pointers was the last to be
written; it is complete, stays from then on, and is what a reader ends up with who reads the
pointer whenever watchers of the other node are told. -/
structure Settles (live watched : String) (pointers : List LivePointer)
    (payload : LivePointer → Bytes) (race : Race (Except RegistryError Unit))
    (turns : List Nat) : Prop where
  succeed : ∀ i < pointers.length, (race.after turns).result? i = some (.ok ())
  last : ∃ before x later p, race.log turns = before ++ x :: later ∧
    pointers[x.client]? = some p ∧ x.Stores live (payload p) ∧
    (∀ y ∈ later, ¬ y.Writes live ∧ y.after.tree.value? live = some (payload p)) ∧
    (race.after turns).service.tree.value? live = some (payload p) ∧
    (∃ y ∈ later, y.announces watched = true) ∧
    (Turn.readings watched live (race.log turns)).getLast? = some (some (payload p))

/-- Before the first turn all clients are at their first stage. -/
theorem racing_start {r : Registry} {s : Service} (hs : s.FaultFree) (hsound : s.tree.Sound)
    {domain service live watched : String} {w : Bytes}
    (hwatch : r.cell (.liveWatch domain service) = .ok (watched, w))
    {pointers : List LivePointer} {payload : LivePointer → Bytes}
    (hpointers : ∀ p ∈ pointers, p.domain = domain ∧ p.service = service ∧
      r.cell (.live p) = .ok (live, payload p))
    {others : List (Program (Except RegistryError Unit))}
    (hothers : ∀ q ∈ others, q.Keeps (Call.LeavesPointer live watched) fun _ => True) :
    Race.Racing live watched w (pointers.map payload)
      ⟨pointers.map (fun p => (r.setLive p).run) ++ others, s⟩ [] := by
  have hset : ∀ p ∈ pointers, r.setLive p =
      (Action.put live (payload p) >>= fun _ => Action.put watched w) := by
    intro p hp
    obtain ⟨hdomain, hservice, hcell⟩ := hpointers p hp
    rw [setLive, hdomain, hservice, store_eq hcell, store_eq hwatch]
  refine ⟨hs, hsound, fun i v hv => ?_, fun i q hv hq => ?_⟩
  · rw [List.getElem?_map, Option.map_eq_some_iff] at hv
    obtain ⟨p, hp, rfl⟩ := hv
    have hi : i < (pointers.map fun p => (r.setLive p).run).length := by
      rw [List.length_map]
      exact (List.getElem?_eq_some_iff.1 hp).1
    refine ⟨(r.setLive p).run, ?_, Or.inl ?_⟩
    · rw [List.getElem?_append_left hi, List.getElem?_map, hp]
      rfl
    · rw [hset p (List.mem_of_getElem? hp)]
      exact Program.ToStore.put_bind
  · have hi : (pointers.map fun p => (r.setLive p).run).length ≤ i := by
      rw [List.length_map]
      simpa using hv
    have hother : others[i - (pointers.map fun p => (r.setLive p).run).length]? = some q :=
      (List.getElem?_append_right hi).symm.trans hq
    exact hothers q (List.mem_of_getElem? hother)

/-- However clients that make releases of one service live take turns, with one another and with
others who leave the pointer alone: all of them can come to an end and then have succeeded, and
watchers do not settle on a pointer that was overwritten. For this the templates have to
place the pointer and the watched node at different valid paths. -/
theorem watchers_settle {r : Registry} {s : Service} (hs : s.FaultFree)
    (hreachable : s.tree.Reachable) {domain service live watched : String} {w : Bytes}
    (hlive : Path.isValid live = true) (hwatched : Path.isValid watched = true)
    (hne : live ≠ watched) (hwatch : r.cell (.liveWatch domain service) = .ok (watched, w))
    {pointers : List LivePointer} (hsome : pointers ≠ []) {payload : LivePointer → Bytes}
    (hpointers : ∀ p ∈ pointers, p.domain = domain ∧ p.service = service ∧
      r.cell (.live p) = .ok (live, payload p))
    {others : List (Program (Except RegistryError Unit))}
    (hothers : ∀ q ∈ others, q.Keeps (Call.LeavesPointer live watched) fun _ => True)
    (turns : List Nat) :
    let race : Race (Except RegistryError Unit) :=
      ⟨pointers.map (fun p => (r.setLive p).run) ++ others, s⟩
    (∃ more, (race.after (turns ++ more)).Finished) ∧
      ((race.after turns).Finished → Settles live watched pointers payload race turns) := by
  intro race
  have hstart : Race.Racing live watched w (pointers.map payload) race [] :=
    racing_start hs hreachable.sound hwatch hpointers hothers
  constructor
  · obtain ⟨more, hmore⟩ := (race.after turns).exists_finished
    refine ⟨more, ?_⟩
    rw [Race.after_append]
    exact hmore
  · intro hfinished
    have hracing := Race.invariant hstart (fun _ _ i h => h.turn hlive hwatched hne i) turns
    have hended {i : Nat} {p : LivePointer} (hp : pointers[i]? = some p) :=
      hracing.ended hfinished (i := i) (v := payload p) (by rw [List.getElem?_map, hp]; rfl)
    obtain ⟨p₀, rest, rfl⟩ := List.exists_cons_of_ne_nil hsome
    obtain ⟨_, hpointed⟩ := hended (i := 0) (p := p₀) rfl
    obtain ⟨before, x, later, v, hlog, hv, hstores, hnow, hlater, htold⟩ :=
      hpointed.told fun i v hv => (hracing.ended hfinished hv).1
    rw [List.getElem?_map, Option.map_eq_some_iff] at hv
    obtain ⟨p, hp, rfl⟩ := hv
    refine ⟨fun i hi => ?_, before, x, later, p, hlog, hp, hstores, hlater, hnow, htold, ?_⟩
    · rw [Race.result?_eq_some_iff]
      exact (hended (List.getElem?_eq_getElem hi)).1
    · rw [hlog, show before ++ x :: later = (before ++ [x]) ++ later by simp]
      exact Turn.getLast?_readings htold fun y hy => (hlater y hy).2

end Registry

namespace TwoReleases

/-- What the standard templates store for a pointer. -/
def payload (p : LivePointer) : Bytes := Text.Utf8.encode (p.containerPath ++ "," ++ p.envPath)

theorem cell_live (p : LivePointer) : Registry.standard.cell (.live p) =
    .ok (Registry.livePath p.domain p.service, payload p) := by
  have hvalue : payload p = Text.Utf8.encode ("" ++ p.containerPath ++ "," ++ p.envPath) := by
    rw [String.empty_append]
    rfl
  rw [hvalue]
  rfl

/-- What is live for a service if a version is. -/
def pointer (version : String) : LivePointer :=
  ⟨"d", "s", "/d/s/" ++ version ++ "/container/i", "/d/s/" ++ version ++ "/env"⟩

/-- Two clients make different versions live. -/
def race : Race (Except RegistryError Unit) :=
  ⟨[pointer "v", pointer "w"].map (fun p => (Registry.standard.setLive p).run) ++ [], .fresh⟩

/-- The second client overwrites the pointer before the first one touches the watched node. -/
def turns : List Nat := [0, 1, 1, 1, 0, 1, 1, 1]

/-- Watchers, who are told by both clients, read the second pointer last. -/
theorem second_settles :
    (race.after turns).result? 0 = some (.ok ()) ∧ (race.after turns).result? 1 = some (.ok ()) ∧
      (race.after turns).service.tree.value? "/d/s/live" = some (payload (pointer "w")) ∧
      (Turn.readings "/d/s/live/watch" "/d/s/live" (race.log turns)).getLast? =
        some (some (payload (pointer "w"))) := by
  obtain ⟨_, hended⟩ := @Registry.watchers_settle .standard .fresh ⟨rfl, rfl⟩ .empty "d" "s"
    "/d/s/live" "/d/s/live/watch" (Text.Utf8.encode "0") (by decide) (by decide) (by decide) rfl
    [pointer "v", pointer "w"] (by simp) payload
    (List.forall_mem_cons.2 ⟨⟨rfl, rfl, cell_live _⟩,
      List.forall_mem_singleton.2 ⟨rfl, rfl, cell_live _⟩⟩) [] (by simp) turns
  have hsettles := hended (by decide +kernel)
  obtain ⟨_, _, _, p, _, _, _, _, hvalue, _, hread⟩ := hsettles.last
  have hlast : (race.after turns).service.tree.value? "/d/s/live" =
      some (payload (pointer "w")) := by decide +kernel
  have hp : payload p = payload (pointer "w") := Option.some.inj (hvalue.symm.trans hlast)
  rw [hp] at hread
  exact ⟨hsettles.succeed 0 (by decide), hsettles.succeed 1 (by decide), hlast, hread⟩

/-- A source that puts the watched node at the place of the pointer. -/
def source : String :=
  "\x7b\x7bdefine \"KEY\"\x7d\x7d/\x7b\x7b.Domain\x7d\x7d/\x7b\x7b.Service\x7d\x7d/live" ++
    "\x7b\x7bend\x7d\x7d\x7b\x7bdefine \"VALUE\"\x7d\x7d0\x7b\x7bend\x7d\x7d"

/-- The standard templates with that of the source. -/
def shared : TemplateSet :=
  ⟨TemplateSet.standard.templates.insert "live-watch"
    (.ofSegments "live-watch" (TemplateSet.servicePath ++ [.text "/live"]) [.text "0"])⟩

/-- One client makes a release live and takes as many turns as it can. -/
def alone (r : Registry) (p : LivePointer) : Race (Except RegistryError Unit) :=
  Race.after ⟨[(r.setLive p).run], .fresh⟩ (List.replicate 6 0)

/-- Where the path of the pointer is no path of the tree, making a release live fails; and where
the watched node has the place of the pointer, it succeeds and leaves no pointer there. -/
theorem pointer_missing :
    ((alone .standard ⟨"", "s", "/s/v/container/i", "/s/v/env"⟩).Finished ∧
      ((alone .standard ⟨"", "s", "/s/v/container/i", "/s/v/env"⟩).result? 0).bind
        Except.toOption = none) ∧
    TemplateSet.withOverrides (.ofList [("live-watch", source)]) = .ok shared ∧
      ((alone ⟨shared⟩ (pointer "v")).result? 0).bind Except.toOption = some () ∧
      (alone ⟨shared⟩ (pointer "v")).service.tree.value? "/d/s/live" =
        some (Text.Utf8.encode "0") ∧
      payload (pointer "v") ≠ Text.Utf8.encode "0" := by
  refine ⟨⟨?_, ?_⟩, eq_ok_of_toOption ?_, ?_, ?_, ?_⟩
  all_goals decide +kernel

end TwoReleases

end Coordination
