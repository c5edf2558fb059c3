import Coordination.Proofs.Files.Written
import Coordination.Proofs.Session.Service

/-!
# Cycles stage by stage

A cycle reads and renders, then writes, then runs its command, and a stage that fails is the last
one. To see which stages there were, a cycle is run on any platform that keeps files and runs
commands, in states of any kind. Where the state is the same at the end, whatever the platform,
nothing was written and nothing was run: a platform may keep a record of both.

A command may do anything to files, so that what a cycle wrote is only known to be there when the
command starts.
-/

namespace Coordination

/-- What a cycle works on apart from the tree, in states of some kind. -/
structure Platform (σ : Type) where
  /-- Write a file, creating the directories of its path. -/
  write : String → Bytes → σ → Except IoError Unit × σ
  /-- Run a program with arguments. -/
  run : String → List String → σ → Except IoError Shell.Exit × σ
  /-- The content of a file. -/
  read : String → σ → Except IoError Bytes
  /-- The path leads to something that keeps nothing of what is written to it. -/
  Discards : String → σ → Prop
  /-- What was written is there. -/
  read_write : ∀ {path bytes x x'}, write path bytes x = (.ok (), x') →
    read path x' = .ok bytes ∨ Discards path x'
  /-- A program that cannot be started does nothing. -/
  run_error : ∀ {program args x x' e}, run program args x = (.error e, x') → x' = x

namespace Shell

/-- A program that cannot be started leaves the files as they are. -/
theorem run_error {program : String} {args : List String} {f f' : Files} {e : IoError}
    (h : run program args f = (.error e, f')) : f' = f := by
  rw [run] at h
  split at h
  · cases h
    rfl
  · cases hstart : startable (ofText program) f with
    | error e' =>
      rw [hstart] at h
      cases h
      rfl
    | ok path =>
      rw [hstart] at h
      cases h

end Shell

namespace Platform

variable {σ : Type}

/-- Files and the commands that run among them. -/
def files : Platform Files where
  write path bytes f := f.writeWithDirectories path bytes
  run := Shell.run
  read path f := f.read path
  Discards path f := f.LeadsToDevice path
  read_write := Files.read_writeWithDirectories
  run_error := Shell.run_error

/-- From one state to the other, all bytes are written to the path. -/
structure Wrote (m : Platform σ) (path : String) (bytes : Bytes) (x x' : σ) : Prop where
  write : m.write path bytes x = (.ok (), x')
  read : m.read path x' = .ok bytes ∨ m.Discards path x'

theorem wrote {m : Platform σ} {path : String} {bytes : Bytes} {x x' : σ}
    (h : m.write path bytes x = (.ok (), x')) : m.Wrote path bytes x x' := ⟨h, m.read_write h⟩

end Platform

/-! ## What is rendered -/

namespace Registry

/-- The read of the root of a release's environment is answered that there is none. -/
def EnvMissing (r : Registry) (id : ReleaseId) (v : Service) : Prop :=
  ∃ path p, r.templates.path (.envRoot id) = .ok path ∧
    (v.answer (.get path)).1 = .error (.notFound p)

/-- The error is another one than that something is missing. -/
def Serious (e : RegistryError) : Prop := ∀ p, e ≠ .notFound p

theorem serious_readLeaves (root : String) (leaves : List Node) (env : Env) :
    (readLeaves root leaves env).Keeps (fun _ => True) (fun _ => True) Serious := by
  induction leaves generalizing env with
  | nil => exact Action.keeps_pure trivial
  | cons leaf rest ih =>
    have hdecode : leaf.decode.Keeps (fun _ => True) (fun _ => True) Serious := by
      rw [Node.decode]
      split
      · exact Action.keeps_pure trivial
      · exact Action.keeps_throw (fun _ => by simp)
    exact hdecode.bind fun value _ => ih _

theorem serious_call (call : Call) :
    (Action.call call).Keeps (fun _ => True) (fun _ => True) Serious := by
  refine (Action.keeps_attempt trivial).bind fun reply _ => ?_
  split
  · exact Action.keeps_pure trivial
  · exact Action.keeps_throw (fun _ => by simp)

theorem run_node (path : String) (v : Service) :
    v.run (Action.node path).run =
      ((v.answer (.get path)).1.mapError fun e =>
        match e with
        | .notFound _ => .notFound path
        | e => .tree e, (v.answer (.get path)).2) := by
  have hattempt : v.run (Action.attempt (.get path)).run =
      (.ok (v.answer (.get path)).1, (v.answer (.get path)).2) := rfl
  rw [Action.node, Service.run_bind_ok hattempt]
  rcases (v.answer (.get path)).1 with e | n
  · cases e <;> rfl
  · rfl

/-- Behind the root of an environment nothing can be missing. -/
theorem getEnv_notFound_iff (r : Registry) (id : ReleaseId) (v : Service) :
    (∃ p, (v.run (r.getEnv id).run).1 = .error (.notFound p)) ↔ r.EnvMissing id v := by
  rw [getEnv, EnvMissing]
  cases hpath : r.templates.path (.envRoot id) with
  | error e =>
    have hfails : v.run (r.path (.envRoot id)).run = (.error (.template e), v) := by
      rw [path, hpath]
      rfl
    rw [Service.run_bind_error hfails]
    simp
  | ok path =>
    have hderived : v.run (r.path (.envRoot id)).run = (.ok path, v) := by
      rw [Registry.path, hpath]
      rfl
    have hnode := run_node path v
    rw [Service.run_bind_ok hderived]
    cases hanswer : (v.answer (.get path)).1 with
    | error e =>
      rw [hanswer] at hnode
      rw [Service.run_bind_error hnode]
      cases e <;> simp [hanswer]
    | ok root =>
      rw [hanswer] at hnode
      rw [Service.run_bind_ok hnode]
      have hserious := ((serious_call (.visit path fun _ => true)).bind fun nodes _ =>
        (serious_readLeaves path (nodes.filter Node.isLeaf) .empty).bind fun env _ =>
          (Action.keeps_pure trivial : Action.Keeps _ (fun _ => True) _
            (pure (env, root.revision)))).ends_run Service.answer (v.answer (.get path)).2
      constructor
      · rintro ⟨p, hmissing⟩
        rw [Service.run] at hmissing
        rw [hmissing] at hserious
        exact absurd rfl (hserious p)
      · rintro ⟨path', p, hpath', hmissing⟩
        obtain rfl : path = path' := Except.ok.inj hpath'
        rw [hanswer] at hmissing
        cases hmissing

end Registry

namespace ReloadRule

variable {σ : Type} (rule : ReloadRule)

/-- What a cycle renders, by what its reads are answered: the template with the environment, or
without variables if there is no environment. -/
def rendered (r : Registry) (v : Service) : Except ReloadError String :=
  match v.run (r.getConf rule.kind rule.scope rule.template).run with
  | (.error e, _) => .error (.registry e)
  | (.ok object, v) =>
    match (v.run (r.getEnv rule.env).run).1 with
    | .ok (env, _) => rule.renderText object.text env
    | .error (.notFound _) => rule.renderText object.text .empty
    | .error e => .error (.registry e)

theorem run_readEnv (r : Registry) (v : Service) :
    (v.run (rule.readEnv r).run).1 =
      match (v.run (r.getEnv rule.env).run).1 with
      | .ok (env, _) => .ok env
      | .error (.notFound _) => .ok .empty
      | .error e => .error e := by
  have hmap : v.run ((r.getEnv rule.env).map Prod.fst).run =
      ((v.run (r.getEnv rule.env).run).1.map Prod.fst, (v.run (r.getEnv rule.env).run).2) := by
    refine (Program.run_bind Service.answer (r.getEnv rule.env).run _ v).trans ?_
    rw [Service.run]
    rcases Program.run Service.answer (r.getEnv rule.env).run v with ⟨e | found, v'⟩ <;> rfl
  rw [readEnv, Service.run, Action.run_tryCatch]
  rw [Service.run] at hmap
  rw [hmap]
  rcases (v.run (r.getEnv rule.env).run).1 with e | found
  · cases e <;> rfl
  · rfl

theorem rendered_eq (r : Registry) (v : Service) :
    rule.rendered r v =
      match (v.run (rule.readSources r).run).1 with
      | .error e => .error (.registry e)
      | .ok (source, env) => rule.renderText source env := by
  rw [rendered, readSources]
  rcases hconf : v.run (r.getConf rule.kind rule.scope rule.template).run with ⟨e | object, v'⟩
  · rw [Service.run_bind_error hconf]
  · have henv := rule.run_readEnv r v'
    have hpair : (v'.run (rule.readEnv r >>= fun env => pure (object.text, env)).run).1 =
        (v'.run (rule.readEnv r).run).1.map fun env => (object.text, env) :=
      congrArg Prod.fst (Action.run_map (rule.readEnv r) _ v')
    rw [Service.run_bind_ok hconf, hpair, henv]
    simp only
    rcases (v'.run (r.getEnv rule.env).run).1 with e | found
    · cases e <;> rfl
    · rfl

/-- What is not rendered is an error of the registry or of the template. -/
theorem rendered_error {r : Registry} {v : Service} {e : ReloadError}
    (h : rule.rendered r v = .error e) :
    (∃ cause, e = .registry cause) ∨ ∃ cause, e = .render rule.template cause := by
  rw [rendered_eq] at h
  split at h
  · rename_i cause _
    exact Or.inl ⟨cause, (Except.error.inj h).symm⟩
  · rw [renderText] at h
    split at h
    · cases h
    · rename_i cause _
      exact Or.inr ⟨cause, (Except.error.inj h).symm⟩

/-! ## Cycles on platforms -/

variable (m : Platform σ)

/-- Run the command of the rule, if there is one, and say whether there is. -/
def runCommandOn (x : σ) : Except ReloadError Bool × σ :=
  match rule.command with
  | [] => (.ok false, x)
  | program :: args =>
    let line := " ".intercalate rule.command
    match m.run program args x with
    | (.error e, x) => (.error (.spawn line e), x)
    | (.ok exit, x) =>
      if exit.succeeded then (.ok true, x)
      else
        let errors := Text.trim (Text.Utf8.decodeLenient exit.errors).toList
        (.error (.command line exit.ending (String.ofList errors)), x)

/-- Write a rendered text and run the command. -/
def installOn (text : String) (x : σ) : Except ReloadError ReloadOutcome × σ :=
  let bytes := Text.Utf8.encode text
  match m.write rule.output bytes x with
  | (.error e, x) => (.error (.write rule.output e), x)
  | (.ok (), x) =>
    match rule.runCommandOn m x with
    | (.error e, x) => (.error e, x)
    | (.ok commandRan, x) => (.ok ⟨rule.output, bytes.length, commandRan⟩, x)

/-- Run a cycle. -/
def cycleOn (r : Registry) (v : Service) (x : σ) :
    Except ReloadError ReloadOutcome × Service × σ :=
  match v.run (rule.readSources r).run with
  | (.error e, v) => (.error (.registry e), v, x)
  | (.ok (source, env), v) =>
    match rule.renderText source env with
    | .error e => (.error e, v, x)
    | .ok text =>
      let (result, x) := rule.installOn m text x
      (result, v, x)

theorem runCommandOn_files (files : Files) :
    rule.runCommandOn .files files = rule.runCommand files := by
  rw [runCommandOn, runCommand]
  cases rule.command with
  | nil => rfl
  | cons program args =>
    have hrun : Platform.files.run program args files = Shell.run program args files := rfl
    simp only [hrun]
    rcases Shell.run program args files with ⟨e | exit, files'⟩ <;> rfl

theorem installOn_files (text : String) (files : Files) :
    rule.installOn .files text files = rule.install text files := by
  have hwrite (bytes : Bytes) : Platform.files.write rule.output bytes files =
      files.writeWithDirectories rule.output bytes := rfl
  rw [installOn, install]
  simp only [hwrite]
  rcases files.writeWithDirectories rule.output (Text.Utf8.encode text) with ⟨e | u, files'⟩
  · rfl
  · simp only [runCommandOn_files]
    rcases rule.runCommand files' with ⟨e | ran, files''⟩ <;> rfl

/-- Among files a cycle is the one of the rule. -/
theorem cycleOn_files (r : Registry) (w : Workspace) :
    rule.cycle r w =
      let (result, service, files) := rule.cycleOn .files r w.service w.files
      (result, ⟨service, files⟩) := by
  rw [cycle, cycleOn]
  rcases w.service.run (rule.readSources r).run with ⟨e | ⟨source, env⟩, v⟩
  · rfl
  · simp only [installOn_files]
    cases rule.renderText source env <;> rfl

theorem cycleOn_service (r : Registry) (v : Service) (x : σ) :
    (rule.cycleOn m r v x).2.1 = (v.run (rule.readSources r).run).2 := by
  rw [cycleOn]
  rcases v.run (rule.readSources r).run with ⟨e | ⟨source, env⟩, v'⟩
  · rfl
  · simp only
    cases rule.renderText source env <;> rfl

/-- Of the service only faults change. -/
theorem cycleOn_frame (r : Registry) (v : Service) (x : σ) :
    ∃ faults, (rule.cycleOn m r v x).2.1 = { v with faults } := by
  have hreads := rule.reads_readSources r
  have htree : (v.run (rule.readSources r).run).2.tree = v.tree := hreads.tree rfl
  have hevents := hreads.events v
  rw [cycleOn_service]
  cases hrun : (v.run (rule.readSources r).run).2 with
  | mk tree faults events =>
    rw [hrun] at htree hevents
    cases htree
    cases hevents
    exact ⟨faults, rfl⟩

/-- Apart from what it reads a cycle renders, and then it writes and runs. -/
theorem cycleOn_rest (r : Registry) (v : Service) (x : σ) :
    ((rule.cycleOn m r v x).1, (rule.cycleOn m r v x).2.2) =
      match rule.rendered r v with
      | .error e => (.error e, x)
      | .ok text => rule.installOn m text x := by
  rw [cycleOn, rendered_eq]
  rcases v.run (rule.readSources r).run with ⟨e | ⟨source, env⟩, v'⟩
  · rfl
  · simp only
    cases rule.renderText source env <;> rfl

/-! ## What a cycle has done -/

/-- What a cycle has done to a platform, by how it ended. What was rendered is written as a whole
before the command starts, and nothing but the command comes after the writing. -/
def Effects (text : Except ReloadError String) (x x' : σ) :
    Except ReloadError ReloadOutcome → Prop
  | .error (.registry e) => text = .error (.registry e) ∧ x' = x
  | .error (.render template e) =>
    text = .error (.render template e) ∧ template = rule.template ∧ x' = x
  | .error (.write path e) =>
    ∃ s, text = .ok s ∧ path = rule.output ∧
      m.write rule.output (Text.Utf8.encode s) x = (.error e, x')
  | .error (.spawn line e) =>
    ∃ s program args, text = .ok s ∧ m.Wrote rule.output (Text.Utf8.encode s) x x' ∧
      rule.command = program :: args ∧ line = " ".intercalate rule.command ∧
      (m.run program args x').1 = .error e
  | .error (.command line ending _) =>
    ∃ s x₁ program args exit, text = .ok s ∧ m.Wrote rule.output (Text.Utf8.encode s) x x₁ ∧
      rule.command = program :: args ∧ line = " ".intercalate rule.command ∧
      m.run program args x₁ = (.ok exit, x') ∧ exit.succeeded = false ∧ exit.ending = ending
  | .ok outcome =>
    ∃ s x₁, text = .ok s ∧ m.Wrote rule.output (Text.Utf8.encode s) x x₁ ∧
      outcome = ⟨rule.output, (Text.Utf8.encode s).length, decide (rule.command ≠ [])⟩ ∧
      (rule.command = [] ∧ x' = x₁ ∨
        ∃ program args exit, rule.command = program :: args ∧
          m.run program args x₁ = (.ok exit, x') ∧ exit.succeeded = true)
  | .error (.noRule _) | .error (.watch ..) => False

theorem effects_installOn (s : String) (x : σ) :
    rule.Effects m (.ok s) x (rule.installOn m s x).2 (rule.installOn m s x).1 := by
  rw [installOn]
  rcases hwrite : m.write rule.output (Text.Utf8.encode s) x with ⟨e | ⟨⟩, x₁⟩
  · exact ⟨s, rfl, rfl, hwrite⟩
  · have hwrote := m.wrote hwrite
    simp only
    rw [runCommandOn]
    cases hcommand : rule.command with
    | nil => exact ⟨s, x₁, rfl, hwrote, by rw [hcommand]; rfl, Or.inl ⟨hcommand, rfl⟩⟩
    | cons program args =>
      simp only
      rcases hrun : m.run program args x₁ with ⟨e | exit, x₂⟩
      · obtain rfl : x₂ = x₁ := m.run_error hrun
        exact ⟨s, program, args, rfl, hwrote, hcommand, by rw [hcommand], by rw [hrun]⟩
      · cases hexit : exit.succeeded with
        | true =>
          simp only [hexit, if_true]
          exact ⟨s, x₁, rfl, hwrote, by rw [hcommand]; rfl,
            Or.inr ⟨program, args, exit, hcommand, hrun, hexit⟩⟩
        | false =>
          simp only [hexit, Bool.false_eq_true, if_false]
          exact ⟨s, x₁, program, args, exit, rfl, hwrote, hcommand, by rw [hcommand], hrun, hexit,
            rfl⟩

theorem effects_cycleOn (r : Registry) (v : Service) (x : σ) :
    rule.Effects m (rule.rendered r v) x (rule.cycleOn m r v x).2.2
      (rule.cycleOn m r v x).1 := by
  have hrest := rule.cycleOn_rest m r v x
  cases htext : rule.rendered r v with
  | ok s =>
    rw [htext] at hrest
    obtain ⟨hresult, hstate⟩ := Prod.mk.inj hrest
    rw [hresult, hstate]
    exact rule.effects_installOn m s x
  | error e =>
    rw [htext] at hrest
    obtain ⟨hresult, hstate⟩ := Prod.mk.inj hrest
    rw [hresult, hstate]
    rcases rule.rendered_error htext with ⟨cause, rfl⟩ | ⟨cause, rfl⟩
    · exact ⟨rfl, rfl⟩
    · exact ⟨rfl, rfl, rfl⟩

/-- What cannot be rendered is how the cycle ends. -/
theorem Effects.of_error {rule : ReloadRule} {m : Platform σ} {e : ReloadError} {x x' : σ}
    {result : Except ReloadError ReloadOutcome} (h : rule.Effects m (.error e) x x' result) :
    result = .error e ∧ x' = x := by
  cases result with
  | ok outcome =>
    obtain ⟨s, x₁, htext, -⟩ := h
    cases htext
  | error cause =>
    cases cause with
    | registry e' =>
      obtain ⟨htext, hstate⟩ := h
      cases htext
      exact ⟨rfl, hstate⟩
    | render template e' =>
      obtain ⟨htext, -, hstate⟩ := h
      cases htext
      exact ⟨rfl, hstate⟩
    | write path e' =>
      obtain ⟨s, htext, -⟩ := h
      cases htext
    | spawn line e' =>
      obtain ⟨s, program, args, htext, -⟩ := h
      cases htext
    | command line ending errors =>
      obtain ⟨s, x₁, program, args, exit, htext, -⟩ := h
      cases htext
    | noRule key => exact h.elim
    | watch key e' => exact h.elim

/-- The environment is empty if there is none, and all other errors count. -/
theorem rendered_of_getConf (rule : ReloadRule) {r : Registry} {v v' : Service}
    {object : ConfObject}
    (h : v.run (r.getConf rule.kind rule.scope rule.template).run = (.ok object, v')) :
    (∀ env revision, (v'.run (r.getEnv rule.env).run).1 = .ok (env, revision) →
      rule.rendered r v = rule.renderText object.text env) ∧
    (r.EnvMissing rule.env v' → rule.rendered r v = rule.renderText object.text .empty) ∧
    ∀ e, (v'.run (r.getEnv rule.env).run).1 = .error e → ¬ r.EnvMissing rule.env v' →
      rule.rendered r v = .error (.registry e) := by
  rw [rendered, h]
  refine ⟨fun env revision henv => ?_, fun hmissing => ?_, fun e henv hmissing => ?_⟩
  · simp only [henv]
  · obtain ⟨p, henv⟩ := (r.getEnv_notFound_iff rule.env v').2 hmissing
    simp only [henv]
  · simp only [henv]
    cases e with
    | notFound p => exact absurd ((r.getEnv_notFound_iff rule.env v').1 ⟨p, henv⟩) hmissing
    | _ => rfl

end ReloadRule

namespace Session

variable {σ : Type}

/-- Run the cycle of a rule on a platform. -/
def reloadOn (m : Platform σ) (key : String) (c : Coordinator) (s : Session) (x : σ) :
    Except ReloadError ReloadOutcome × Session × σ :=
  match c.rules.get? key with
  | none => (.error (.noRule key), s, x)
  | some rule =>
    let (result, service, x) := rule.cycleOn m s.registry s.work.service x
    (result, { s with work := { s.work with service } }, x)

/-- A cycle of a session is one on its files. -/
theorem reloadNow_eq (key : String) (c : Coordinator) (s : Session) :
    s.reloadNow key c =
      let (result, s', files) := s.reloadOn .files key c s.work.files
      (result, { s' with work := { s'.work with files } }) := by
  rw [reloadNow, reloadOn]
  cases c.rules.get? key with
  | none => rfl
  | some rule =>
    simp only [rule.cycleOn_files]

theorem reloadOn_of_rule {key : String} {c : Coordinator} {rule : ReloadRule}
    (h : c.rules.get? key = some rule) (m : Platform σ) (s : Session) (x : σ) :
    s.reloadOn m key c x =
      ((rule.cycleOn m s.registry s.work.service x).1,
        { s with work := ⟨(rule.cycleOn m s.registry s.work.service x).2.1, s.work.files⟩ },
        (rule.cycleOn m s.registry s.work.service x).2.2) := by
  rw [reloadOn, h]

/-- A cycle of a session is one on its files, and on every platform a cycle leaves rules, watches,
nodes and all else of the session alone, but that faults may have come due. Without a rule nothing
happens. With one, what the cycle has done to the platform is told by how it ended. An environment
that is missing is rendered as one without variables; every other error of the registry ends the
cycle. -/
theorem cycle_ends_at_failure (s : Session) (c : Coordinator) (key : String) :
    (s.reloadNow key c =
      let (result, s', files) := s.reloadOn .files key c s.work.files
      (result, { s' with work := { s'.work with files } })) ∧
    ∀ (σ : Type) (m : Platform σ) (x : σ), ∃ result faults x',
      s.reloadOn m key c x =
        (result, { s with work := { s.work with service := { s.work.service with faults } } },
          x') ∧
      (c.rules.get? key = none → result = .error (.noRule key) ∧ x' = x) ∧
      ∀ rule, c.rules.get? key = some rule →
        let text := rule.rendered s.registry s.work.service
        rule.Effects m text x x' result ∧
        (∀ e v, s.work.service.run
            (s.registry.getConf rule.kind rule.scope rule.template).run = (.error e, v) →
          result = .error (.registry e)) ∧
        ∀ object v, s.work.service.run
            (s.registry.getConf rule.kind rule.scope rule.template).run = (.ok object, v) →
          (∀ env revision, (v.run (s.registry.getEnv rule.env).run).1 = .ok (env, revision) →
            text = rule.renderText object.text env) ∧
          (s.registry.EnvMissing rule.env v → text = rule.renderText object.text .empty) ∧
          ∀ e, (v.run (s.registry.getEnv rule.env).run).1 = .error e →
            ¬ s.registry.EnvMissing rule.env v → result = .error (.registry e) := by
  refine ⟨s.reloadNow_eq key c, fun σ m x => ?_⟩
  cases hrule : c.rules.get? key with
  | none =>
    refine ⟨.error (.noRule key), s.work.service.faults, x, ?_, fun _ => ⟨rfl, rfl⟩, by simp⟩
    rw [reloadOn, hrule]
  | some rule =>
    obtain ⟨faults, hservice⟩ := rule.cycleOn_frame m s.registry s.work.service x
    refine ⟨(rule.cycleOn m s.registry s.work.service x).1, faults,
      (rule.cycleOn m s.registry s.work.service x).2.2, ?_, by simp, ?_⟩
    · rw [reloadOn_of_rule hrule, hservice]
    · rintro _ ⟨⟩
      have heffects := rule.effects_cycleOn m s.registry s.work.service x
      have hends {e : ReloadError}
          (htext : rule.rendered s.registry s.work.service = .error e) :
          (rule.cycleOn m s.registry s.work.service x).1 = .error e := by
        rw [htext] at heffects
        exact heffects.of_error.1
      refine ⟨heffects, fun e v hconf => hends ?_, fun object v hconf => ?_⟩
      · rw [ReloadRule.rendered, hconf]
      · obtain ⟨hfound, hmissing, herror⟩ := rule.rendered_of_getConf hconf
        exact ⟨hfound, hmissing, fun e henv hthere => hends (herror e henv hthere)⟩

end Session

/-! ## Outputs that are not what was rendered -/

namespace LostOutput

/-- A rule that writes to an output and runs a command. -/
def rule (output : String) (command : List String) : ReloadRule :=
  ⟨"/w", ⟨"d", "s", "v"⟩, .config, .base "c" "s", "app.conf", output, command⟩

/-- A rule whose command replaces what the cycle wrote. -/
def replacing : ReloadRule := rule "app.conf" ["sh", "-c", "echo done > app.conf"]

/-- A rule whose output keeps nothing. -/
def discarding : ReloadRule := rule "/dev/null" []

/-- A working directory, a device, and a shell among the programs. -/
def files : Files :=
  ⟨.ofList [("/work", .directory), ("/dev", .directory), ("/dev/null", .device .null),
    ("/bin", .directory), ("/bin/sh", .program "sh")], .empty⟩

/-- A session with a template and a watch for the rule. -/
def session (r : ReloadRule) : Session :=
  (Session.start .standard files).after
    [.registry (.newConf .config (.base "c" "s")
      (.ofList [("app.conf", Text.Utf8.encode "server \x7b\x7b.Service\x7d\x7d\n")])),
     .reload (.watch r)]

/-- The cycle of the rule succeeds, and its output is not what was rendered. -/
def Loses (r : ReloadRule) : Prop :=
  ∃ c, (session r).coordinator = some c ∧ c.rules.get? "/w" = some r ∧
    r.rendered (session r).registry (session r).work.service = .ok "server s\n" ∧
    ((session r).reloadNow "/w" c).1 = .ok ⟨r.output, 9, decide (r.command ≠ [])⟩ ∧
    ∃ found, ((session r).reloadNow "/w" c).2.work.files.read r.output = .ok found ∧
      found ≠ Text.Utf8.encode "server s\n"

/-- A command can replace the output, and a device keeps nothing of it. -/
theorem outputs_differ : Loses replacing ∧ Loses discarding := by
  refine ⟨?_, ?_⟩
  · refine ⟨⟨.ofList [("/w", replacing)]⟩, by decide +kernel, by decide,
      eq_ok_of_toOption (by decide +kernel), eq_ok_of_toOption (by decide +kernel),
      Text.Utf8.encode "done\n", eq_ok_of_toOption (by decide +kernel), by decide⟩
  · refine ⟨⟨.ofList [("/w", discarding)]⟩, by decide +kernel, by decide,
      eq_ok_of_toOption (by decide +kernel), eq_ok_of_toOption (by decide +kernel),
      [], eq_ok_of_toOption (by decide +kernel), by decide⟩

end LostOutput

end Coordination
