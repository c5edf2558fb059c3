import Coordination.OrderedMap.Lookup
import Coordination.Proofs.Machine.History

/-!
# Runs of fleets

A step of a fleet does one of few things: it does nothing, lets time pass, keeps a record, or
changes one machine in the way in which a step of that machine alone can. The deadlines that are
due then lapse. So whatever holds of all runs of one machine holds of each machine of a fleet,
and the number of its moves is read off the steps that were answered with a record.
-/

namespace Coordination

universe u

variable {σ : Type u}

deriving instance DecidableEq for FleetStep

/-- Whether a call was refused. -/
def FleetAnswer.isRefused : FleetAnswer σ → Bool
  | .refused _ => true
  | _ => false

/-- Whether a step that was answered so has moved the machine at a position. -/
def FleetStep.moved (i : Nat) : FleetStep σ → FleetAnswer σ → Bool
  | .next j _ _ _, .record _ => j = i
  | _, _ => false

namespace Machine

/-- A move appends one record, and nothing else does. -/
theorem length_past_step (l : Lifecycle σ) (m : Machine σ) (s : MachineStep σ) :
    (m.step l s).past.length = m.past.length + (m.moves l s).toNat := by
  have hpassed : (m.passed? l s).isSome = m.moves l s := by
    cases s with
    | next state message error =>
      cases h : m.moves l (.next state message error) <;> simp [passed?, h]
    | _ => rfl
  cases m.keeps_step l s with
  | appended state message error passed leads past current =>
    rw [past, ← hpassed, passed, List.length_append]
    rfl
  | kept deadline passed past current =>
    rw [past, ← hpassed, passed]
    rfl

/-- The machine is the one at a position: it and its current record name the position, and its
records are numbered. -/
structure Placed (i : Nat) (m : Machine σ) : Prop where
  id : m.id = i
  owner : m.current.machine = i
  numbered : m.Numbered

theorem placed_start (i : Nat) (initial : σ) : (start i initial).Placed i :=
  ⟨rfl, rfl, numbered_start i initial⟩

theorem id_step (l : Lifecycle σ) (m : Machine σ) (s : MachineStep σ) :
    (m.step l s).id = m.id := by
  cases s with
  | next state message error =>
    by_cases hallowed : l.allows m.current.state state = true
    · rw [step, next_of_allowed message error hallowed]
      rfl
    · rw [step, next_of_not_allowed message error hallowed]
      rfl
  | setDeadline record time =>
    by_cases hcurrent : m.current.sameEntry record = true
    · rw [step, setDeadline_of_current time hcurrent]
      rfl
    · rw [step, setDeadline_of_not_current time hcurrent]
      rfl
  | wake g =>
    rw [step, wake]
    split <;> rfl
  | take name => cases name <;> rfl
  | dropReceiver name => cases name <;> rfl

theorem Placed.step {i : Nat} {m : Machine σ} (h : m.Placed i) (l : Lifecycle σ)
    (s : MachineStep σ) : (m.step l s).Placed i := by
  refine ⟨(id_step l m s).trans h.id, ?_, h.numbered.step s⟩
  cases m.keeps_step l s with
  | appended state message error passed leads past current => rw [current, h.id]
  | kept deadline passed past current => rw [current, h.owner]

theorem Placed.after {i : Nat} {m : Machine σ} (h : m.Placed i) (l : Lifecycle σ)
    (steps : List (MachineStep σ)) : (m.after l steps).Placed i := by
  induction steps generalizing m with
  | nil => exact h
  | cons s steps ih => exact ih (h.step l s)

end Machine

namespace Member

/-- What taking from a signal that has a receiver leaves. -/
theorem step_take {l : Lifecycle σ} {name : SignalName} {slot : Option (Record σ)}
    (m : Member σ) (h : m.signal name = .holding slot) :
    m.machine.step l (.take name) = (m.setSignal name (.holding none)).machine := by
  have htaken : (m.signal name).take.2 = .holding none := by rw [h, Signal.take]
  cases name with
  | completed => exact congrArg (fun x => { m.machine with completed := x }) htaken
  | expired => exact congrArg (fun x => { m.machine with expired := x }) htaken

/-- A deadline lapses in that its timer wakes. -/
theorem settle_eq (now : Nat) (m : Member σ) :
    m.settle now = m ∨ ∃ g, m.machine.pending = some g ∧
      m.settle now = { m with machine := m.machine.wake g } := by
  rw [settle]
  cases hpending : m.machine.pending with
  | none => exact Or.inl rfl
  | some g =>
    by_cases hdue : m.dueAt ≤ now ∧ !m.gone
    · exact Or.inr ⟨g, rfl, if_pos hdue⟩
    · exact Or.inl (if_neg hdue)

end Member

namespace Fleet

variable {l : Lifecycle σ} {f : Fleet σ} {s : FleetStep σ} {i j : Nat} {m m' : Member σ}

/-! ## One step -/

/-- A machine is there and was not dropped, or it takes part in nothing. -/
theorem live_or_dropped (f : Fleet σ) (i : Nat) :
    (∃ m, f.members[i]? = some m ∧ m.gone = false) ∨
      ∀ act, f.withMember i act = (.dropped, f) := by
  cases hget : f.members[i]? with
  | none =>
    right
    intro act
    rw [withMember, hget]
  | some m =>
    cases hgone : m.gone with
    | true =>
      right
      intro act
      rw [withMember, hget]
      exact if_pos hgone
    | false => exact Or.inl ⟨m, rfl, hgone⟩

theorem withMember_of_live (h : f.members[i]? = some m) (hlive : m.gone = false)
    (act : Member σ → FleetAnswer σ × Fleet σ) : f.withMember i act = act m := by
  rw [withMember, h]
  exact if_neg (by rw [hlive]; exact Bool.false_ne_true)

/-- What a step does before deadlines lapse. A machine changes as in a run of its own. -/
inductive Acts (l : Lifecycle σ) (f : Fleet σ) (s : FleetStep σ) : Prop where
  | idle (moved : ∀ i, s.moved i (f.act l s).1 = false) (result : (f.act l s).2 = f)
  | passed (time : Nat) (step : s = .sleep time)
  | kept (j : Nat) (name : String) (m : Member σ) (step : s = .keep j name)
    (there : f.members[j]? = some m)
    (result : f.act l s = (.done, { f with kept := f.kept.insert name m.machine.current }))
  | changed (j : Nat) (m m' : Member σ) (there : f.members[j]? = some m)
    (answer : (f.act l s).1.isRefused = false)
    (members : (f.act l s).2.members = f.members.set j m') (kept : (f.act l s).2.kept = f.kept)
    (run : ∃ steps, m'.machine = m.machine.after l steps)
    (past : m'.machine.past.length =
      m.machine.past.length + (s.moved j (f.act l s).1).toNat)
    (others : ∀ i, i ≠ j → s.moved i (f.act l s).1 = false)

/-- A machine that does a step of its own. -/
theorem Acts.of_step {a : FleetAnswer σ} {x : MachineStep σ} (there : f.members[j]? = some m)
    (hact : f.act l s = (a, f.setMember j m')) (ha : a.isRefused = false)
    (hmachine : m'.machine = m.machine.step l x)
    (hmoved : ∀ i, s.moved i a = (decide (j = i) && m.machine.moves l x)) : Acts l f s := by
  refine .changed j m m' there ?_ ?_ ?_ ⟨[x], hmachine⟩ ?_ fun i hi => ?_
  · rw [hact]
    exact ha
  · rw [hact]
    rfl
  · rw [hact]
    rfl
  · rw [hact, hmoved, decide_eq_true rfl, Bool.true_and, hmachine]
    exact Machine.length_past_step l m.machine x
  · rw [hact, hmoved, decide_eq_false (Ne.symm hi), Bool.false_and]

/-- A step of a machine that is missing or was dropped. -/
theorem Acts.of_dropped {act : Member σ → FleetAnswer σ × Fleet σ}
    (hact : f.act l s = f.withMember i act) (h : ∀ act, f.withMember i act = (.dropped, f)) :
    Acts l f s := by
  rw [h] at hact
  refine .idle (fun j => ?_) (by rw [hact])
  rw [hact]
  cases s <;> rfl

theorem acts_next (l : Lifecycle σ) (f : Fleet σ) (i : Nat) (state : σ) (message : String)
    (error : Option String) : Acts l f (.next i state message error) := by
  rcases f.live_or_dropped i with ⟨m, hget, hlive⟩ | h
  · have hact : f.act l (.next i state message error) = _ := withMember_of_live hget hlive _
    by_cases hallowed : l.allows m.machine.current.state state = true
    · have hnext := Machine.next_of_allowed message error hallowed
      rw [hnext] at hact
      refine .of_step (x := .next state message error) hget hact rfl ?_ fun k => ?_
      · rw [Machine.step, hnext]
        rfl
      · rw [Machine.moves, hnext]
        exact (Bool.and_true _).symm
    · rw [Machine.next_of_not_allowed message error hallowed] at hact
      exact .idle (fun j => by rw [hact]; rfl) (by rw [hact])
  · exact .of_dropped rfl h

theorem acts_deadline (l : Lifecycle σ) (f : Fleet σ) (i time : Nat) (on : Option String) :
    Acts l f (.deadline i time on) := by
  rcases f.live_or_dropped i with ⟨m, hget, hlive⟩ | h
  · have hact : f.act l (.deadline i time on) = _ := withMember_of_live hget hlive _
    by_cases hcurrent :
        m.machine.current.sameEntry ((on.bind f.kept.get?).getD m.machine.current) = true
    · have hset := Machine.setDeadline_of_current time hcurrent
      simp only [hset] at hact
      refine .of_step (x := .setDeadline ((on.bind f.kept.get?).getD m.machine.current) time)
        hget hact rfl ?_ fun k => ?_
      · rw [Machine.step, hset]
        rfl
      · exact (Bool.and_false _).symm
    · simp only [Machine.setDeadline_of_not_current time hcurrent] at hact
      exact .idle (fun j => by rw [hact]; rfl) (by rw [hact])
  · exact .of_dropped rfl h

theorem acts_take (l : Lifecycle σ) (f : Fleet σ) (i : Nat) (name : SignalName) :
    Acts l f (.take i name) := by
  cases hget : f.members[i]? with
  | none =>
    refine .idle (fun _ => rfl) ?_
    rw [act, take, hget]
  | some m =>
    cases hsignal : m.signal name with
    | dropped =>
      refine .idle (fun _ => rfl) ?_
      simp only [act, take, hget, hsignal]
    | holding slot =>
      obtain ⟨a, ha, hact⟩ : ∃ a : FleetAnswer σ, a.isRefused = false ∧
          f.act l (.take i name) = (a, f.setMember i (m.setSignal name (.holding none))) := by
        simp only [act, take, hget, hsignal, Signal.take]
        cases slot with
        | some r => exact ⟨_, rfl, rfl⟩
        | none => cases m.gone <;> exact ⟨_, rfl, rfl⟩
      exact .of_step hget hact ha (m.step_take hsignal).symm fun k => (Bool.and_false _).symm

theorem acts_dropSignal (l : Lifecycle σ) (f : Fleet σ) (i : Nat) (name : SignalName) :
    Acts l f (.dropSignal i name) := by
  cases hget : f.members[i]? with
  | none =>
    refine .idle (fun _ => rfl) ?_
    rw [act, hget]
  | some m =>
    have hact : f.act l (.dropSignal i name) =
        (.done, f.setMember i (m.setSignal name .dropped)) := by rw [act, hget]
    have hmachine : (m.setSignal name .dropped).machine =
        m.machine.step l (.dropReceiver name) := by cases name <;> rfl
    exact .of_step hget hact rfl hmachine fun k => (Bool.and_false _).symm

/-- A machine that is dropped takes no step of its own. -/
theorem acts_drop (l : Lifecycle σ) (f : Fleet σ) (i : Nat) : Acts l f (.drop i) := by
  cases hget : f.members[i]? with
  | none =>
    refine .idle (fun _ => rfl) ?_
    rw [act, hget]
  | some m =>
    have hact : f.act l (.drop i) = (.done, f.setMember i { m with gone := true }) := by
      rw [act, hget]
    refine .changed i m { m with gone := true } hget ?_ ?_ ?_ ⟨[], rfl⟩ ?_ fun k hk => ?_
    · rw [hact]
      rfl
    · rw [hact]
      rfl
    · rw [hact]
      rfl
    · rfl
    · rfl

theorem acts (l : Lifecycle σ) (f : Fleet σ) (s : FleetStep σ) : Acts l f s := by
  cases s with
  | next i state message error => exact acts_next l f i state message error
  | deadline i time on => exact acts_deadline l f i time on
  | current i =>
    rcases f.live_or_dropped i with ⟨m, hget, hlive⟩ | h
    · exact .idle (fun _ => rfl) (by rw [act, withMember_of_live hget hlive])
    · exact .of_dropped rfl h
  | history i =>
    rcases f.live_or_dropped i with ⟨m, hget, hlive⟩ | h
    · exact .idle (fun _ => rfl) (by rw [act, withMember_of_live hget hlive])
    · exact .of_dropped rfl h
  | keep i name =>
    rcases f.live_or_dropped i with ⟨m, hget, hlive⟩ | h
    · exact .kept i name m rfl hget (withMember_of_live hget hlive _)
    · exact .of_dropped rfl h
  | sleep time => exact .passed time rfl
  | take i name => exact acts_take l f i name
  | dropSignal i name => exact acts_dropSignal l f i name
  | drop i => exact acts_drop l f i

/-- A call that is refused does nothing. -/
theorem act_of_refused (h : (f.act l s).1.isRefused = true) : (f.act l s).2 = f := by
  cases f.acts l s with
  | idle moved result => exact result
  | passed time step =>
    rw [step] at h
    cases h
  | kept j name m step there result =>
    rw [result] at h
    cases h
  | changed j m m' there answer members kept run past others =>
    rw [answer] at h
    cases h

/-- A step changes no record that is kept, unless it keeps another one under its name. -/
theorem kept_step {name : String} (h : ∀ j, s ≠ .keep j name) :
    (f.step l s).2.kept.get? name = f.kept.get? name := by
  show (f.act l s).2.kept.get? name = _
  cases f.acts l s with
  | idle moved result => rw [result]
  | passed time step =>
    rw [step]
    rfl
  | kept j name' m step there result =>
    have hne : name ≠ name' := fun heq => h j (heq ▸ step)
    rw [result]
    exact (OrderedMap.get?_insert _ _ _ _).trans (if_neg hne)
  | changed j m m' there answer members kept run past others => rw [kept]

/-- Before deadlines lapse a step leaves each machine or does a step with it. -/
theorem member_act (h : f.members[i]? = some m) : ∃ m', (f.act l s).2.members[i]? = some m' ∧
    (∃ steps, m'.machine = m.machine.after l steps) ∧
    m'.machine.past.length = m.machine.past.length + (s.moved i (f.act l s).1).toNat := by
  cases f.acts l s with
  | idle moved result =>
    refine ⟨m, ?_, ⟨[], rfl⟩, ?_⟩
    · rw [result, h]
    · rw [moved]
      rfl
  | passed time step =>
    rw [step]
    exact ⟨m, h, ⟨[], rfl⟩, rfl⟩
  | kept j name m' step there result =>
    rw [step] at result ⊢
    rw [result]
    exact ⟨m, h, ⟨[], rfl⟩, rfl⟩
  | changed j m₀ m' there answer members kept run past others =>
    rw [members]
    by_cases hj : i = j
    · subst hj
      obtain rfl : m = m₀ := Option.some.inj (h.symm.trans there)
      have hlt : i < f.members.length := (List.getElem?_eq_some_iff.1 h).1
      exact ⟨m', List.getElem?_set_self hlt, run, past⟩
    · refine ⟨m, ?_, ⟨[], rfl⟩, ?_⟩
      · rw [List.getElem?_set_ne (Ne.symm hj), h]
      · rw [others i hj]
        rfl

/-- A step does a few steps with each machine; the machine moves if the answer says so. -/
theorem member_step (h : f.members[i]? = some m) : ∃ m', (f.step l s).2.members[i]? = some m' ∧
    (∃ steps, m'.machine = m.machine.after l steps) ∧
    m'.machine.past.length = m.machine.past.length + (s.moved i (f.step l s).1).toNat := by
  obtain ⟨m', hget, ⟨steps, hrun⟩, hpast⟩ := member_act (l := l) (s := s) h
  refine ⟨m'.settle (f.act l s).2.now, ?_, ?_⟩
  · show ((f.act l s).2.members.map (Member.settle _))[i]? = _
    rw [List.getElem?_map, hget]
    rfl
  · rcases m'.settle_eq (f.act l s).2.now with hsame | ⟨g, -, hwoken⟩
    · rw [hsame]
      exact ⟨⟨steps, hrun⟩, hpast⟩
    · have hwake : m'.machine.wake g = m'.machine.step l (.wake g) := rfl
      have hquiet : (m'.machine.step l (.wake g)).past.length = m'.machine.past.length :=
        Machine.length_past_step l m'.machine (.wake g)
      rw [hwoken, hwake]
      refine ⟨⟨steps ++ [.wake g], ?_⟩, hquiet.trans hpast⟩
      rw [Machine.after_concat, ← hrun]

theorem length_members_step (l : Lifecycle σ) (f : Fleet σ) (s : FleetStep σ) :
    (f.step l s).2.members.length = f.members.length := by
  show ((f.act l s).2.members.map (Member.settle _)).length = _
  rw [List.length_map]
  cases f.acts l s with
  | idle moved result => rw [result]
  | passed time step =>
    rw [step]
    rfl
  | kept j name m step there result => rw [result]
  | changed j m m' there answer members kept run past others => rw [members, List.length_set]

/-! ## Runs -/

/-- The fleet after a run. -/
def after (l : Lifecycle σ) (f : Fleet σ) (steps : List (FleetStep σ)) : Fleet σ :=
  steps.foldl (fun f s => (f.step l s).2) f

/-- How often a machine moves in a run. -/
def moves (l : Lifecycle σ) (i : Nat) : Fleet σ → List (FleetStep σ) → Nat
  | _, [] => 0
  | f, s :: steps => (s.moved i (f.step l s).1).toNat + moves l i (f.step l s).2 steps

theorem after_append (l : Lifecycle σ) (f : Fleet σ) (steps steps' : List (FleetStep σ)) :
    f.after l (steps ++ steps') = (f.after l steps).after l steps' := List.foldl_append

theorem kept_after {name : String} {steps : List (FleetStep σ)}
    (h : ∀ j, .keep j name ∉ steps) :
    (f.after l steps).kept.get? name = f.kept.get? name := by
  induction steps generalizing f with
  | nil => rfl
  | cons s steps ih =>
    have hfirst : ∀ j, s ≠ .keep j name := fun j hs => h j (hs ▸ List.mem_cons_self)
    have hrest : ∀ j, .keep j name ∉ steps := fun j hmem => h j (List.mem_cons_of_mem _ hmem)
    exact (ih hrest).trans (kept_step hfirst)

/-- A run of a fleet is a run of each machine, and tells how often the machine moves in it. -/
theorem member_after (h : f.members[i]? = some m) (steps : List (FleetStep σ)) :
    ∃ m', (f.after l steps).members[i]? = some m' ∧
      (∃ run, m'.machine = m.machine.after l run) ∧
      m'.machine.past.length = m.machine.past.length + f.moves l i steps := by
  induction steps generalizing f m with
  | nil => exact ⟨m, h, ⟨[], rfl⟩, rfl⟩
  | cons s steps ih =>
    obtain ⟨m₁, hget, ⟨first, hfirst⟩, hpast⟩ := member_step (l := l) (s := s) h
    obtain ⟨m₂, hget', ⟨rest, hrest⟩, hpast'⟩ := ih hget
    refine ⟨m₂, hget', ⟨first ++ rest, ?_⟩, ?_⟩
    · rw [hrest, hfirst, Machine.after_append]
    · rw [hpast', hpast, moves, Nat.add_assoc]

theorem length_members_after (l : Lifecycle σ) (f : Fleet σ) (steps : List (FleetStep σ)) :
    (f.after l steps).members.length = f.members.length := by
  induction steps generalizing f with
  | nil => rfl
  | cons s steps ih => exact (ih _).trans (length_members_step l f s)

/-- Every machine and its current record name its position. -/
def Placed (f : Fleet σ) : Prop :=
  ∀ (i : Nat) (m : Member σ), f.members[i]? = some m → m.machine.Placed i

theorem placed_start (initials : List σ) (kept : OrderedMap (Record σ)) :
    Placed { start initials with kept } := by
  intro i m hget
  have hget' : (initials.mapIdx fun i state => (⟨.start i state, 0, false⟩ : Member σ))[i]? =
      some m := hget
  rw [List.getElem?_mapIdx] at hget'
  obtain ⟨state, -, rfl⟩ := Option.map_eq_some_iff.1 hget'
  exact Machine.placed_start i state

theorem Placed.after (h : f.Placed) (l : Lifecycle σ) (steps : List (FleetStep σ)) :
    (f.after l steps).Placed := by
  intro i m' hget'
  have hlt : i < f.members.length := by
    rw [← length_members_after l f steps]
    exact (List.getElem?_eq_some_iff.1 hget').1
  have hget : f.members[i]? = some f.members[i] := List.getElem?_eq_getElem hlt
  obtain ⟨m'', hget'', ⟨run, hrun⟩, -⟩ := member_after (l := l) hget steps
  obtain rfl : m'' = m' := Option.some.inj (hget''.symm.trans hget')
  rw [hrun]
  exact (h i _ hget).after l run

end Fleet

end Coordination
