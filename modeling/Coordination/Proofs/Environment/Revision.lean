import Coordination.Proofs.Environment.Requests
import Coordination.Proofs.Tree.Revision

/-!
# Environment writes on a condition

The revision of an environment counts the changes of the nodes directly below its root, and
these are the first segments of the names of its variables. A save at a revision that was
read is refused, and writes nothing, as soon as the first segments that reading lists were
others at some time since. A change of the variables within a group that stays is not seen.
-/

namespace Coordination

/-- The first segments of the names of the variables. -/
def Env.tops (env : Env) : List String := env.keys.map Path.first

namespace Service

variable {α β : Type} {s s' : Service} {id : ReleaseId} {env : Env} {r : Nat}

/-! ## What reading lists -/

/-- The names of what is collected from leaves are their relative names. -/
theorem contains_of_run_readLeaves {d : String} (hd : d ≠ Path.root) {nodes : List Node}
    (hnodes : ∀ n ∈ nodes, ∃ x, n.path = d ++ "/" ++ x) {found : Env}
    (h : s.run (Registry.readLeaves d nodes found).run = (.ok env, s')) (x : String) :
    env.contains x = true ↔ d ++ "/" ++ x ∈ nodes.map Node.path ∨ found.contains x = true := by
  induction nodes generalizing s found with
  | nil =>
    cases h
    exact (or_iff_right List.not_mem_nil).symm
  | cons n rest ih =>
    obtain ⟨⟨y, hpath⟩, hrest⟩ := List.forall_mem_cons.1 hnodes
    have hname : (n.relativeTo? d).getD n.name = y := by
      rw [Node.relativeTo?, hpath, Path.relativeTo?_cut hd]
      rfl
    obtain ⟨v, s₁, _, h⟩ := exists_of_run_bind_eq_ok h
    rw [hname] at h
    have hiff : d ++ "/" ++ x = d ++ "/" ++ y ↔ x = y :=
      ⟨Path.append_left_cancel, fun heq => heq ▸ rfl⟩
    rw [ih hrest h, List.map_cons, List.mem_cons, hpath, hiff, OrderedMap.contains_insert,
      ← or_assoc, or_comm (a := _ ∈ _)]

/-- Reading an environment gives the revision of its root and lists its leaves. -/
theorem names_of_getEnv (hs : s.tree.Sound)
    (h : s.run (Registry.standard.getEnv id).run = (.ok (env, r), s')) :
    s.tree.revision? id.envPath = some r ∧ ∀ x, env.contains x = true ↔
      s.tree.Has (id.envPath ++ "/" ++ x) ∧ Path.Below id.envPath (id.envPath ++ "/" ++ x) ∧
        s.tree.childPaths (id.envPath ++ "/" ++ x) = [] := by
  rw [Registry.getEnv_standard] at h
  obtain ⟨root, s₁, hroot, h⟩ := exists_of_run_bind_eq_ok h
  obtain ⟨nodes, s₂, hvisit, h⟩ := exists_of_run_bind_eq_ok h
  obtain ⟨found, s₃, hleaves, h⟩ := exists_of_run_bind_eq_ok h
  cases h
  obtain ⟨htree, hrevision⟩ := revision?_of_run_node hroot
  have hhas := Tree.has_iff_revision?.2 ⟨_, hrevision⟩
  have hp := hs.valid hhas
  rw [← htree] at hhas
  have hnodes := nodes_of_run_visit hp hhas hvisit
  rw [htree] at hnodes
  subst hnodes
  refine ⟨hrevision, fun x => ?_⟩
  rw [contains_of_run_readLeaves id.envPath_ne_root ?_ hleaves]
  · have hempty : ¬ (OrderedMap.empty : Env).contains x = true := Bool.false_ne_true
    rw [or_iff_left hempty, Tree.mem_leafPaths_iff hs hp]
  · intro n hn
    obtain ⟨q, hbelow, _, hn⟩ := (Tree.mem_leavesBelow_iff hs hp).1 hn
    obtain ⟨c, hc, rfl⟩ := Tree.node?_eq_some_iff.1 hn
    obtain ⟨y, _, heq⟩ := hbelow.exists_cut hp id.envPath_ne_root
      (hs.valid (Tree.has_iff_get?.2 ⟨c, hc⟩))
    exact ⟨y, heq⟩

/-- The first segments of what reading lists are the children of the root. -/
theorem mem_tops_iff (hs : s.tree.Sound)
    (h : s.run (Registry.standard.getEnv id).run = (.ok (env, r), s')) {n : String} :
    n ∈ env.tops ↔ id.envPath ++ "/" ++ n ∈ s.tree.childPaths id.envPath := by
  obtain ⟨hrevision, hnames⟩ := names_of_getEnv hs h
  have hd := id.envPath_ne_root
  have hp := hs.valid (Tree.has_iff_revision?.2 ⟨r, hrevision⟩)
  rw [Env.tops, List.mem_map, Tree.mem_childPaths_iff hs hp]
  constructor
  · rintro ⟨x, hx, rfl⟩
    obtain ⟨hhas, hbelow, _⟩ := (hnames x).1 (OrderedMap.contains_iff_mem_keys.2 hx)
    obtain ⟨y, hy, heq⟩ := hbelow.exists_cut hp hd (hs.valid hhas)
    obtain rfl := Path.append_left_cancel heq
    obtain ⟨hname, hfirst⟩ := hy.first
    refine ⟨?_, Path.parent?_child hp hd hname⟩
    rcases hfirst with heq | hstart
    · rw [← heq]
      exact hhas
    · exact hs.ancestor (Path.isValid_child hp hd hname) hhas
        ((Path.below_cut_iff hd hname.1 hy.ne_empty).2 hstart)
  · rintro ⟨hhas, hparent⟩
    obtain ⟨_, m, hm, heq⟩ := Path.exists_name_of_parent (hs.valid hhas) hparent
    rw [Path.childStart_of_ne hd] at heq
    obtain rfl := Path.append_left_cancel heq
    obtain ⟨q, hq, hnil, hnq⟩ := hs.exists_leaf hhas
    have hbelow : Path.Below id.envPath q := by
      rcases hnq with rfl | hnq
      · exact Path.below_child hd hm
      · exact Path.below_trans (Path.below_child hd hm) hnq
    obtain ⟨y, hy, rfl⟩ := hbelow.exists_cut hp hd (hs.valid hq)
    refine ⟨y, OrderedMap.contains_iff_mem_keys.1 ((hnames y).2 ⟨hq, hbelow, hnil⟩), ?_⟩
    rcases hnq with heq | hnq
    · rw [Path.append_left_cancel heq]
      exact Path.first_name hm.2
    · exact Path.first_of_startsWith hm ((Path.below_cut_iff hd hm.1 hy.ne_empty).1 hnq)

end Service

/-! ## Requests and the root -/

namespace EnvRequest

variable {s : Service} (id : ReleaseId)

/-- The trees that a service goes through while it serves requests, call by call. -/
def treesSince (s : Service) : List EnvRequest → List Tree
  | [] => [s.tree]
  | q :: rest => s.trees (q.action id).run ++ treesSince (q.serve id s).2 rest

/-- Through requests, the revision of the root counts the changes of its children. -/
theorem passage_serve (q : EnvRequest) (hs : s.tree.Sound) (hd : s.tree.Has id.envPath) :
    Tree.Passage id.envPath s.tree (s.trees (q.action id).run) (q.serve id s).2.tree :=
  Service.passage_run ((q.keeps_action id).mono (fun _ hc => hc.ne_delete id.envPath_ne_root)
    (fun _ h => h) fun _ h => h) hs hd

theorem passage_serveAll (requests : List EnvRequest) (hs : s.tree.Sound)
    (hd : s.tree.Has id.envPath) : Tree.Passage id.envPath s.tree (treesSince id s requests)
      (serveAll id s requests).tree := by
  induction requests generalizing s with
  | nil => exact .refl hs hd
  | cons q rest ih =>
    have hpassage := passage_serve id q hs hd
    exact hpassage.trans (ih hpassage.sound hpassage.has)

theorem faults_serve (q : EnvRequest) (hs : s.faults = []) : (q.serve id s).2.faults = [] :=
  (Service.run_of_faults_eq_nil (q.action id).run hs).2.2

theorem faults_serveAll (requests : List EnvRequest) (hs : s.faults = []) :
    (serveAll id s requests).faults = [] := by
  induction requests generalizing s with
  | nil => exact hs
  | cons q rest ih => exact ih (faults_serve id q hs)

/-- A save is refused, and writes nothing, where the root is at another revision. -/
theorem refused_save {c : EnvChange} {r expected : Nat} (hs : s.tree.Sound)
    (hfaults : s.faults = []) (hr : s.tree.revision? id.envPath = some r) :
    (Refused ((EnvRequest.save c expected).serve id s).1 ↔ r ≠ expected) ∧
      (Refused ((EnvRequest.save c expected).serve id s).1 →
        ((EnvRequest.save c expected).serve id s).2.tree = s.tree) := by
  have hp := hs.valid (Tree.has_iff_revision?.2 ⟨r, hr⟩)
  have haccept : (s.accept .get id.envPath).1 = .ok () := by
    rw [Service.accept_eq_ok_iff, hfaults]
    rfl
  have hchecked := Service.run_checked_map (Registry.saveEnv_standard id c expected)
    Answer.summary (Registry.unconditional_envWrites id c) hp hr
  rw [and_iff_right haccept] at hchecked
  exact hchecked

theorem not_refused_of_saved {reply : Except RegistryError Answer} {summary : ChangeSummary}
    (h : saved? reply = some summary) : ¬ Refused reply := by
  rintro ⟨e, rfl, _⟩
  cases h

/-- What a read is answered, and the tree that it leaves as it was. -/
theorem getEnv_of_read {env : Env} {r : Nat}
    (h : listed? (EnvRequest.read.serve id s).1 = some (env, r)) :
    (∃ s', s.run (Registry.standard.getEnv id).run = (.ok (env, r), s')) ∧
      (EnvRequest.read.serve id s).2.tree = s.tree := by
  rcases hserve : EnvRequest.read.serve id s with ⟨reply | a, s'⟩
  · rw [hserve] at h
    cases h
  · rw [hserve] at h
    obtain ⟨⟨env', r'⟩, s₁, hget, hpure⟩ := Service.exists_of_run_bind_eq_ok hserve
    cases hpure
    cases h
    exact ⟨⟨s', hget⟩, Service.tree_of_reads Registry.unconditional_getEnv hget⟩

variable {id} {env : Env} {r : Nat} {c : EnvChange}

/-- Where reading lists other first segments, the root has other children. -/
theorem childPaths_ne_of_tops {s' : Service} {env' : Env} {r' : Nat} (hs : s.tree.Sound)
    (hs' : s'.tree.Sound) (h : listed? (EnvRequest.read.serve id s).1 = some (env, r))
    (h' : listed? (EnvRequest.read.serve id s').1 = some (env', r'))
    (hchanged : ∃ n, ¬ (n ∈ env.tops ↔ n ∈ env'.tops)) :
    s'.tree.childPaths id.envPath ≠ s.tree.childPaths id.envPath := by
  intro hchildren
  obtain ⟨⟨_, hget⟩, _⟩ := getEnv_of_read id h
  obtain ⟨⟨_, hget'⟩, _⟩ := getEnv_of_read id h'
  obtain ⟨n, hn⟩ := hchanged
  rw [Service.mem_tops_iff hs hget, Service.mem_tops_iff hs' hget', hchildren] at hn
  exact hn Iff.rfl

/-- A save at the revision from before a passage of the root is refused exactly if the root had
other children on the way, and then it writes nothing. -/
theorem refused_iff_of_passage {t : Tree} {seen : List Tree} (hs : s.faults = [])
    (hpassage : Tree.Passage id.envPath t seen s.tree) (hr : t.revision? id.envPath = some r) :
    (Refused ((EnvRequest.save c r).serve id s).1 ↔
        ∃ u ∈ seen, u.childPaths id.envPath ≠ t.childPaths id.envPath) ∧
      (Refused ((EnvRequest.save c r).serve id s).1 →
        ((EnvRequest.save c r).serve id s).2.tree = s.tree) := by
  obtain ⟨r', hr', hmoved⟩ := hpassage.exists_revision hr
  obtain ⟨hrefused, hunchanged⟩ := refused_save (c := c) id hpassage.sound hs hr'
  exact ⟨hrefused.trans hmoved, hunchanged⟩

/-- A save at the revision that was read is refused, and writes nothing, if since then a
request has changed the first segments of the names that reading lists. -/
theorem refused_of_tops_changed (hs : s.FaultFree) (hreachable : s.tree.Reachable)
    {before after : List EnvRequest} {q : EnvRequest} {s₁ s₂ s₃ : Service} {env₁ env₂ : Env}
    {r₁ r₂ : Nat} (hread : listed? (EnvRequest.read.serve id s).1 = some (env, r))
    (hs₁ : s₁ = serveAll id (EnvRequest.read.serve id s).2 before)
    (hs₂ : s₂ = (q.serve id s₁).2) (hs₃ : s₃ = serveAll id s₂ after)
    (hbefore : listed? (EnvRequest.read.serve id s₁).1 = some (env₁, r₁))
    (hafter : listed? (EnvRequest.read.serve id s₂).1 = some (env₂, r₂))
    (hchanged : ∃ n, ¬ (n ∈ env₁.tops ↔ n ∈ env₂.tops)) :
    Refused ((EnvRequest.save c r).serve id s₃).1 ∧
      ((EnvRequest.save c r).serve id s₃).2.tree = s₃.tree := by
  obtain ⟨⟨s', hget⟩, htree⟩ := getEnv_of_read id hread
  have ht : (EnvRequest.read.serve id s).2.tree.Sound := by
    rw [htree]
    exact hreachable.sound
  obtain ⟨hr, _⟩ := Service.names_of_getEnv hreachable.sound hget
  rw [← htree] at hr
  -- The run has three parts, so that the trees before and after the request are among those seen.
  have hfirst := passage_serveAll id before ht (Tree.has_iff_revision?.2 ⟨r, hr⟩)
  rw [← hs₁] at hfirst
  have hsecond := passage_serve id q hfirst.sound hfirst.has
  rw [← hs₂] at hsecond
  have hthird := passage_serveAll id after hsecond.sound hsecond.has
  rw [← hs₃] at hthird
  have hchildren := childPaths_ne_of_tops hfirst.sound hsecond.sound hbefore hafter hchanged
  have hfaults₁ : s₁.faults = [] :=
    hs₁ ▸ faults_serveAll id before (faults_serve id .read hs.faults)
  have hfaults₂ : s₂.faults = [] := hs₂ ▸ faults_serve id q hfaults₁
  have hfaults₃ : s₃.faults = [] := hs₃ ▸ faults_serveAll id after hfaults₂
  obtain ⟨hiff, hunchanged⟩ :=
    refused_iff_of_passage (c := c) hfaults₃ (hfirst.trans (hsecond.trans hthird)) hr
  have hrefused : Refused ((EnvRequest.save c r).serve id s₃).1 := by
    by_cases hsame : s₁.tree.childPaths id.envPath =
        (EnvRequest.read.serve id s).2.tree.childPaths id.envPath
    · refine hiff.2 ⟨s₂.tree, ?_, fun hagain => hchildren (hagain.trans hsame.symm)⟩
      exact List.mem_append_right _ (List.mem_append_left _ hsecond.last)
    · exact hiff.2 ⟨s₁.tree, List.mem_append_left _ hfirst.last, hsame⟩
  exact ⟨hrefused, hunchanged hrefused⟩

end EnvRequest

namespace SameGroup

/-- A release. -/
def id : ReleaseId := ⟨"d", "s", "v"⟩

/-- The variables that the environment is created with: one, in a group. -/
def vars : Env := OrderedMap.empty.insert "db/HOST" "h"

/-- A variable more in the same group. -/
def another : EnvChange := ⟨OrderedMap.empty.insert "db/PORT" "5432", .empty⟩

/-- A variable next to the group. -/
def outside : EnvChange := ⟨OrderedMap.empty.insert "PORT" "80", .empty⟩

/-- The service where the environment was created. -/
def created : Service := ((EnvRequest.new vars).serve id .fresh).2

/-- The service where the environment was read and changed within the group. -/
def changed : Service :=
  ((EnvRequest.save another 1).serve id (EnvRequest.read.serve id created).2).2

/-- The change succeeds and adds a name to what reading lists, but a later save at the
revision from before it is not refused: it succeeds, too. -/
theorem not_refused_within_group :
    EnvRequest.listed? (EnvRequest.read.serve id created).1 = some (vars, 1) ∧
      EnvRequest.saved? ((EnvRequest.save another 1).serve id
        (EnvRequest.read.serve id created).2).1 = some ⟨1, 0, 0⟩ ∧
      EnvRequest.listed? (EnvRequest.read.serve id changed).1 =
        some (vars.insert "db/PORT" "5432", 1) ∧
      ¬ Refused ((EnvRequest.save outside 1).serve id changed).1 := by
  have hsaved : EnvRequest.saved? ((EnvRequest.save outside 1).serve id changed).1 =
      some ⟨1, 0, 0⟩ := by decide +kernel
  exact ⟨by decide +kernel, by decide +kernel, by decide +kernel,
    EnvRequest.not_refused_of_saved hsaved⟩

/-- The service where a variable was added next to the group as well. -/
def widened : Service := ((EnvRequest.save outside 1).serve id changed).2

/-- Once a name has been added next to the group, a save at the old revision is refused. -/
theorem refused_outside_group :
    Refused ((EnvRequest.save another 1).serve id widened).1 ∧
      ((EnvRequest.save another 1).serve id widened).2.tree = widened.tree := by
  have hread : EnvRequest.listed? (EnvRequest.read.serve id created).1 = some (vars, 1) := by
    decide +kernel
  have hbefore : EnvRequest.listed? (EnvRequest.read.serve id changed).1 =
      some (vars.insert "db/PORT" "5432", 1) := by decide +kernel
  have hafter : EnvRequest.listed? (EnvRequest.read.serve id widened).1 =
      some ((vars.insert "db/PORT" "5432").insert "PORT" "80", 2) := by decide +kernel
  have hchanged : changed =
      EnvRequest.serveAll id (EnvRequest.read.serve id created).2 [.save another 1] := rfl
  have hwidened : widened = EnvRequest.serveAll id widened [] := rfl
  have htop : ¬ ("PORT" ∈ Env.tops (vars.insert "db/PORT" "5432") ↔
      "PORT" ∈ Env.tops ((vars.insert "db/PORT" "5432").insert "PORT" "80")) := by decide +kernel
  exact EnvRequest.refused_of_tops_changed (q := .save outside 1)
    ⟨by decide +kernel, by decide +kernel⟩
    (Service.reachable_run _ .empty) hread hchanged rfl hwidened hbefore hafter ⟨_, htop⟩

end SameGroup

end Coordination
