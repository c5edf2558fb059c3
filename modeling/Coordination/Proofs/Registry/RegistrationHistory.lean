import Coordination.Proofs.Registry.Registrations
import Mathlib.Data.List.Basic

/-!
# Reading registrations after any operations

What is read of a release and of the count of an image is what was registered last, whatever
other operations came in between. Where nothing was registered, the node may still be there,
because something was created below it: then a release is read with the empty text as its image,
and there is no number to read as a count.
-/

namespace Coordination

/-- What became of an operation: its reply, and the writes that took effect. -/
structure Performed where
  op : RegistryStep
  reply : Except RegistryError Answer
  writes : List Call

namespace Performed

/-- The payload that the operation stored at the path, if it succeeded in storing one. -/
def stored? (p : String) (x : Performed) : Option Bytes :=
  x.op.stored?.bind fun e =>
    if e.standardPath = p then x.reply.toOption.map fun _ => Text.Utf8.encode e.payload else none

/-- Whether a node was created below the path. -/
def createdBelow (p : String) (x : Performed) : Bool := x.writes.any (Call.createsBelow p)

/-- The image that was registered for the release. -/
def image? (id : ReleaseId) (x : Performed) : Option String :=
  match x.op with
  | .setRelease r => if r.id = id then x.reply.toOption.map fun _ => r.image else none
  | _ => none

/-- The count that was registered for the image of a release. -/
def count? (release : Release) (x : Performed) : Option UInt32 :=
  match x.op with
  | .setImageCount r count => if r = release then x.reply.toOption.map fun _ => count else none
  | _ => none

end Performed

namespace RegistryStep

/-- What a service answers to an operation, and the service afterwards. -/
def serve (s : Service) (op : RegistryStep) : Except RegistryError Answer × Service :=
  s.run (op.action .standard).run

/-- What becomes of an operation. -/
def performed (s : Service) (op : RegistryStep) : Performed :=
  ⟨op, (serve s op).1, s.effects (op.action .standard).run⟩

/-- The service after operations. -/
def serveAll (s : Service) : List RegistryStep → Service
  | [] => s
  | op :: rest => serveAll (serve s op).2 rest

/-- What becomes of operations, in order. -/
def history (s : Service) : List RegistryStep → List Performed
  | [] => []
  | op :: rest => performed s op :: history (serve s op).2 rest

theorem faultFree_serveAll {s : Service} (hs : s.FaultFree) (steps : List RegistryStep) :
    (serveAll s steps).FaultFree := by
  induction steps generalizing s with
  | nil => exact hs
  | cons op rest ih => exact ih (hs.run _)

variable {s : Service} {e : Entry}

theorem stored?_performed {op : RegistryStep} {e' : Entry} (hstored : op.stored? = some e')
    (p : String) : (performed s op).stored? p = if e'.standardPath = p then
      (serve s op).1.toOption.map fun _ => Text.Utf8.encode e'.payload else none := by
  rw [Performed.stored?, performed, hstored]
  rfl

/-- An operation that stores an entry at the path leaves its payload there, or it fails and
leaves no trace. -/
theorem value?_of_put {op : RegistryStep} {e' : Entry} {p : String}
    (haction : op.action .standard =
      (Action.put p (Text.Utf8.encode e'.payload) >>= fun _ => pure .done))
    (hstored : op.stored? = some e') (hpath : e'.standardPath = p) (hs : s.tree.Sound) :
    (serve s op).2.tree.value? p = ((performed s op).stored? p).or
      ((s.tree.value? p).or (Tree.implicit ((performed s op).createdBelow p))) := by
  rw [stored?_performed hstored, if_pos hpath]
  rcases hput : s.run (Action.put p (Text.Utf8.encode e'.payload)).run with ⟨failure | u, s'⟩
  · have hserve : serve s op = (.error failure, s') := by
      rw [serve, haction, Service.run_bind_error hput]
    have hkeeps : (op.action .standard).Keeps (fun c => c.path = p) (fun _ => True)
        fun _ => True := by
      have hcalls : (Action.put p (Text.Utf8.encode e'.payload)).Unconditional
          fun c => c.path = p := Action.unconditional_put rfl rfl rfl
      rw [haction]
      exact (hcalls.mono (fun _ h => h) (fun _ h => h) fun _ _ => trivial).bind fun _ _ =>
        Action.keeps_pure trivial
    have hbelow : (performed s op).createdBelow p = false := by
      refine List.any_eq_false.2 fun c hc => ?_
      rw [Call.createsBelow_of_path (Service.allowed_of_mem_effects hkeeps hc).1]
      exact Bool.false_ne_true
    rw [hserve, hbelow, Action.spares_put _ _ _ _ _ hput]
    exact (Option.or_none).symm
  · have hserve : serve s op = (.ok .done, s') := by
      rw [serve, haction, Service.run_bind_ok hput]
      rfl
    rw [hserve, Service.value?_of_run_put hs hput]
    rfl

/-- What an operation leaves at a registered entry's path: what it stored there, else what was
there before, and where nothing was, an empty node if something was created below. -/
theorem value?_serve {op : RegistryStep} (hop : op.Admitted) (he : e.Admitted)
    (hregistered : e.Registered) (hs : s.tree.Sound) :
    (serve s op).2.tree.value? e.standardPath = ((performed s op).stored? e.standardPath).or
      ((s.tree.value? e.standardPath).or
        (Tree.implicit ((performed s op).createdBelow e.standardPath))) := by
  by_cases hstores : ∃ e', op.stored? = some e' ∧ e'.standardPath = e.standardPath
  · obtain ⟨e', hstored, hpath⟩ := hstores
    have haction : op.action .standard =
        (Action.put e.standardPath (Text.Utf8.encode e'.payload) >>= fun _ => pure .done) := by
      rw [action_of_stored hstored, ← hpath]
      exact congrArg (· >>= fun _ => pure Answer.done) (Registry.store_eq e'.cell_standard)
    exact value?_of_put haction hstored hpath hs
  · have hother : ∀ e', op.stored? = some e' → e'.standardPath ≠ e.standardPath :=
      fun e' hstored hpath => hstores ⟨e', hstored, hpath⟩
    have hnone : (performed s op).stored? e.standardPath = none := by
      cases hstored : op.stored? with
      | none =>
        rw [Performed.stored?, performed, hstored]
        rfl
      | some e' => rw [stored?_performed hstored, if_neg (hother e' hstored)]
    rw [hnone]
    exact Service.value?_run (avoids_action hop he hregistered hother) hs he.isValid_path

/-- What is stored last in a history is what its last operations stored, else what the first
one did. -/
theorem getLast?_filterMap_cons {α β : Type} (f : α → Option β) (a : α) (l : List α) :
    ((a :: l).filterMap f).getLast? = (l.filterMap f).getLast?.or (f a) := by
  cases h : f a with
  | none => rw [List.filterMap_cons_none h, Option.or_none]
  | some b =>
    rw [List.filterMap_cons_some h, List.getLast?_cons]
    cases (l.filterMap f).getLast? <;> rfl

/-- What operations leave at a registered entry's path: what was stored there last, else what
was there before, and where nothing was, an empty node if something was created below. -/
theorem value?_serveAll {steps : List RegistryStep} (hsteps : ∀ op ∈ steps, op.Admitted)
    (he : e.Admitted) (hregistered : e.Registered) (hs : s.tree.Reachable) :
    (serveAll s steps).tree.value? e.standardPath =
      ((history s steps).filterMap (Performed.stored? e.standardPath)).getLast?.or
        ((s.tree.value? e.standardPath).or
          (Tree.implicit ((history s steps).any (Performed.createdBelow e.standardPath)))) := by
  induction steps generalizing s with
  | nil => exact (Option.or_none).symm
  | cons op rest ih =>
    obtain ⟨hop, hrest⟩ := List.forall_mem_cons.1 hsteps
    have htail := ih hrest (s := (serve s op).2) (Service.reachable_run _ hs)
    rw [serveAll, htail, value?_serve hop he hregistered hs.sound, history,
      getLast?_filterMap_cons, List.any_cons, ← Tree.implicit_or]
    simp only [Option.or_assoc]

theorem op_mem_of_mem_history {steps : List RegistryStep} {x : Performed}
    (h : x ∈ history s steps) : x.op ∈ steps := by
  induction steps generalizing s with
  | nil => cases h
  | cons op rest ih =>
    rcases List.mem_cons.1 h with rfl | h
    · exact List.mem_cons_self
    · exact List.mem_cons_of_mem _ (ih h)

end RegistryStep

/-! ## Releases and counts -/

/-- The entry of a release, whatever its image. -/
def ReleaseId.entry (id : ReleaseId) : Entry := .release ⟨id, ""⟩

/-- The entry of the count of an image, whatever the count. -/
def Release.countEntry (release : Release) : Entry := .imageCount release 0

/-- Images of releases are told apart by the names of their counts. -/
theorem Release.countNames_inj {r r' : Release} :
    r.countEntry.names = r'.countEntry.names ↔ r = r' := by
  obtain ⟨⟨domain, service, version⟩, image⟩ := r
  obtain ⟨⟨domain', service', version'⟩, image'⟩ := r'
  simp [countEntry, Entry.names, ReleaseId.names, and_assoc]

namespace Performed

variable {x : Performed} {p : String}

/-- Paths are told apart by their names. -/
theorem stored?_eq_of_names (hop : x.op.Admitted) {e : Entry} (he : e.Admitted) :
    x.stored? e.standardPath = x.op.stored?.bind fun e' =>
      if e'.names = e.names then x.reply.toOption.map fun _ => Text.Utf8.encode e'.payload
      else none := by
  rw [stored?]
  cases hstored : x.op.stored? with
  | none => rfl
  | some e' =>
    have he' : e'.Admitted := hop e' (RegistryStep.mem_entries_of_stored hstored)
    have hiff : e'.standardPath = e.standardPath ↔ e'.names = e.names :=
      Path.ofNames_inj he'.isName he.isName
    simp only [Option.bind_some, hiff]

theorem names_eq_iff {id id' : ReleaseId} : id.names = id'.names ↔ id = id' := by
  obtain ⟨domain, service, version⟩ := id
  obtain ⟨domain', service', version'⟩ := id'
  simp [ReleaseId.names]

/-- What is stored at the path of a release is its image. -/
theorem stored?_release (hop : x.op.Admitted) {id : ReleaseId} (hid : id.entry.Admitted) :
    x.stored? id.entry.standardPath = (x.image? id).map Text.Utf8.encode := by
  rw [stored?_eq_of_names hop hid, image?]
  cases x.op with
  | setRelease r =>
    have hiff : (Entry.release r).names = id.entry.names ↔ r.id = id := names_eq_iff
    by_cases h : r.id = id
    · simp [RegistryStep.stored?, hiff, h, Entry.payload, Function.comp_def]
    · simp [RegistryStep.stored?, hiff, h]
  | touchRelease id' => exact if_neg (by simp [Entry.names, ReleaseId.names, ReleaseId.entry])
  | setImageCount r count =>
    exact if_neg (by simp [Entry.names, ReleaseId.names, ReleaseId.entry])
  | registerDashboard d => exact if_neg (by simp [Entry.names, ReleaseId.names, ReleaseId.entry])
  | _ => rfl

/-- What is stored at the path of an image is its count, in decimal. -/
theorem stored?_count (hop : x.op.Admitted) {release : Release}
    (hrelease : release.countEntry.Admitted) :
    x.stored? release.countEntry.standardPath =
      (x.count? release).map fun n => Text.Utf8.encode (toString n.toNat) := by
  rw [stored?_eq_of_names hop hrelease, count?]
  cases x.op with
  | setImageCount r count =>
    have hiff : (Entry.imageCount r count).names = release.countEntry.names ↔ r = release :=
      Release.countNames_inj
    by_cases h : r = release
    · subst h
      simp [RegistryStep.stored?, hiff.2 rfl, Entry.payload, Function.comp_def]
    · simp [RegistryStep.stored?, hiff, h]
  | setRelease r => exact if_neg (by simp [Entry.names, ReleaseId.names, Release.countEntry])
  | touchRelease id =>
    exact if_neg (by simp [Entry.names, ReleaseId.names, Release.countEntry])
  | registerDashboard d =>
    exact if_neg (by simp [Entry.names, ReleaseId.names, Release.countEntry])
  | _ => rfl

end Performed

namespace Registry

/-- What is read of a release after a history: the image that was registered last; else the empty
text if something was created below the release, and nothing if not. -/
def releaseAfter (id : ReleaseId) (log : List Performed) : Except RegistryError Release :=
  match (log.filterMap (Performed.image? id)).getLast? with
  | some image => .ok ⟨id, image⟩
  | none =>
    if log.any (Performed.createdBelow id.entry.standardPath) then .ok ⟨id, ""⟩
    else .error (.notFound id.entry.standardPath)

/-- What is read of the count of an image after a history: the count that was registered last;
else the fault that the empty text is no number if something was created below the image, and
nothing if not. -/
def countAfter (release : Release) (log : List Performed) : Except RegistryError Nat :=
  match (log.filterMap (Performed.count? release)).getLast? with
  | some n => .ok n.toNat
  | none =>
    if log.any (Performed.createdBelow release.countEntry.standardPath) then
      .error (.decode release.countEntry.standardPath (.count ""))
    else .error (.notFound release.countEntry.standardPath)

/-- What is read of a release whose node holds the text, if it is there. -/
def releaseOf (id : ReleaseId) : Option String → Except RegistryError Release
  | some image => .ok ⟨id, image⟩
  | none => .error (.notFound id.entry.standardPath)

/-- What is read of the count of an image whose node holds the text, if it is there. -/
def countOf (release : Release) : Option String → Except RegistryError Nat
  | some text =>
    match Text.readNumeral? 4294967295 (Text.trim text.toList) with
    | some n => .ok n
    | none => .error (.decode release.countEntry.standardPath (.count text))
  | none => .error (.notFound release.countEntry.standardPath)

end Registry

/-! ## Reading -/

namespace Tree

variable {t : Tree}

/-- Reading the text of an entry and going on with its path and the text. -/
theorem run_path_text {α : Type} {e : Entry} (he : e.Admitted)
    (f : String → String → Action α) {text? : Option String} :
    t.value? e.standardPath = text?.map Text.Utf8.encode →
      t.run (Registry.standard.path e >>= fun path =>
          Action.node path >>= fun n => n.decode >>= f path).run =
        match text? with
        | some text => t.run (f e.standardPath text).run
        | none => (.error (.notFound e.standardPath), t) := by
  intro h
  rw [Entry.path_standard, pure_bind]
  cases text? with
  | none => rw [run_bind_error (run_node_of_not_has he.isValid_path (value?_eq_none_iff.1 h))]
  | some text =>
    obtain ⟨n, hnode, hvalue⟩ := run_node_of_value he.isValid_path h
    rw [run_bind_ok hnode, run_bind_ok (run_decode hvalue)]

theorem run_getRelease {id : ReleaseId} (hid : id.entry.Admitted) {image? : Option String}
    (h : t.value? id.entry.standardPath = image?.map Text.Utf8.encode) :
    (t.run (Registry.standard.getRelease id).run).1 = Registry.releaseOf id image? := by
  have hread := run_path_text hid (fun _ image => pure (⟨id, image⟩ : Release)) h
  refine (congrArg Prod.fst hread).trans ?_
  cases image? <;> rfl

theorem run_getImageCount {release : Release} (hrelease : release.countEntry.Admitted)
    {text? : Option String}
    (h : t.value? release.countEntry.standardPath = text?.map Text.Utf8.encode) :
    (t.run (Registry.standard.getImageCount release).run).1 =
      Registry.countOf release text? := by
  have hread := run_path_text hrelease (fun path text =>
    match Text.readNumeral? 4294967295 (Text.trim text.toList) with
    | some n => pure n
    | none => throw (.decode path (.count text))) h
  refine (congrArg Prod.fst hread).trans ?_
  cases text? with
  | none => rfl
  | some text =>
    simp only [Registry.countOf]
    cases Text.readNumeral? 4294967295 (Text.trim text.toList) <;> rfl

end Tree

namespace RegistryStep

variable {s : Service} {steps : List RegistryStep}

/-- The text at a registered entry's path where nothing was at first, if what is stored there
is told by the operations: what was told last, else the empty text if something was created
below. -/
theorem text_of_told {e : Entry} {β : Type} {told? : Performed → Option β} {print : β → String}
    (hsteps : ∀ op ∈ steps, op.Admitted) (he : e.Admitted) (hregistered : e.Registered)
    (hs : s.tree.Reachable) (hmissing : ¬ s.tree.Has e.standardPath)
    (htold : ∀ x : Performed, x.op.Admitted →
      x.stored? e.standardPath = (told? x).map fun a => Text.Utf8.encode (print a)) :
    (serveAll s steps).tree.value? e.standardPath =
      ((((history s steps).filterMap told?).getLast?.map print).or
        (if (history s steps).any (Performed.createdBelow e.standardPath) then some ""
          else none)).map Text.Utf8.encode := by
  have hstored : (history s steps).filterMap (Performed.stored? e.standardPath) =
      ((history s steps).filterMap told?).map fun a => Text.Utf8.encode (print a) := by
    rw [List.map_filterMap]
    exact List.filterMap_congr fun x hx => htold x (hsteps _ (op_mem_of_mem_history hx))
  rw [value?_serveAll hsteps he hregistered hs, Tree.value?_eq_none_iff.2 hmissing, hstored,
    List.getLast?_map, Option.none_or]
  cases ((history s steps).filterMap told?).getLast? with
  | some a => rfl
  | none => cases (history s steps).any (Performed.createdBelow e.standardPath) <;> rfl

/-- After any operations on a service where nothing fails, a release is read with the image
that was registered for it last, and the count of an image as the count that was registered last.
Where none was registered, they are found missing unless something was created below them. -/
theorem registrations_read (hs : s.FaultFree) (hreachable : s.tree.Reachable)
    (hsteps : ∀ op ∈ steps, op.Admitted) :
    (∀ id : ReleaseId, id.entry.Admitted → ¬ s.tree.Has id.entry.standardPath →
      ((serveAll s steps).run (Registry.standard.getRelease id).run).1 =
        Registry.releaseAfter id (history s steps)) ∧
    ∀ release : Release, release.countEntry.Admitted →
      ¬ s.tree.Has release.countEntry.standardPath →
      ((serveAll s steps).run (Registry.standard.getImageCount release).run).1 =
        Registry.countAfter release (history s steps) := by
  have hfaults := (faultFree_serveAll hs steps).faults
  constructor
  · intro id hid hmissing
    have htext := text_of_told hsteps hid trivial hreachable hmissing fun x hx =>
      Performed.stored?_release hx hid
    rw [(Service.run_of_faults_eq_nil _ hfaults).1, Tree.run_getRelease hid htext,
      Registry.releaseAfter]
    cases ((history s steps).filterMap (Performed.image? id)).getLast? with
    | some image => rfl
    | none =>
      cases (history s steps).any (Performed.createdBelow id.entry.standardPath) <;> rfl
  · intro release hrelease hmissing
    have htext := text_of_told hsteps hrelease trivial hreachable hmissing fun x hx =>
      Performed.stored?_count hx hrelease
    rw [(Service.run_of_faults_eq_nil _ hfaults).1, Tree.run_getImageCount hrelease htext,
      Registry.countAfter]
    cases ((history s steps).filterMap (Performed.count? release)).getLast? with
    | some n =>
      have hn : n.toNat ≤ 4294967295 := Nat.le_of_lt_succ n.toNat_lt
      simp only [Option.map_some, Option.some_or, Registry.countOf,
        Text.readNumeral?_trim_toString hn]
    | none =>
      cases (history s steps).any
          (Performed.createdBelow release.countEntry.standardPath) <;> rfl

end RegistryStep

namespace OtherOperations

/-- A release. -/
def id : ReleaseId := ⟨"d", "s", "v"⟩

/-- The release with its first image. -/
def release : Release := ⟨id, "img:1"⟩

/-- A container of that image. -/
def container : Container := ⟨release, "c", 80, "h", 8080⟩

/-- Another release of the service. -/
def other : ReleaseId := ⟨"d", "s", "w"⟩

/-- A release and a count are registered twice, with everything else in between. -/
def steps : List RegistryStep :=
  [.newEnv id (OrderedMap.empty.insert "A" "1"), .setRelease release, .setImageCount release 3,
    .registerContainer container, .touchRelease id,
    .setLive ⟨"d", "s", "/d/s/v/container/img:1", "/d/s/v/env"⟩,
    .setRelease ⟨id, "img:2"⟩, .saveEnv id ⟨OrderedMap.empty.insert "B" "2", .empty⟩ 1,
    .setImageCount release 4294967295, .unregisterContainer container]

/-- What was registered last is read; the other release is not found. -/
theorem last_registered_read :
    ((RegistryStep.serveAll .fresh steps).run (Registry.standard.getRelease id).run).1 =
        .ok ⟨id, "img:2"⟩ ∧
      ((RegistryStep.serveAll .fresh steps).run
        (Registry.standard.getImageCount release).run).1 = .ok 4294967295 ∧
      ((RegistryStep.serveAll .fresh steps).run (Registry.standard.getRelease other).run).1 =
        .error (.notFound "/d/s/w") := by
  obtain ⟨hreleases, hcounts⟩ := @RegistryStep.registrations_read .fresh steps ⟨rfl, rfl⟩ .empty
    (by decide +kernel)
  have hother : Registry.releaseAfter other (RegistryStep.history .fresh steps) =
      .error (.notFound "/d/s/w") := by
    have hnone : ((RegistryStep.history .fresh steps).filterMap
        (Performed.image? other)).getLast? = none := by decide +kernel
    have hbelow : (RegistryStep.history .fresh steps).any
        (Performed.createdBelow other.entry.standardPath) = false := by decide +kernel
    rw [Registry.releaseAfter, hnone, hbelow]
    rfl
  refine ⟨(hreleases id (by decide) (by decide +kernel)).trans (eq_ok_of_toOption ?_),
    (hcounts release (by decide) (by decide +kernel)).trans (eq_ok_of_toOption ?_),
    (hreleases other (by decide) (by decide +kernel)).trans hother⟩
  all_goals decide +kernel

/-- A release that was never registered is read as one with an empty image once it has an
environment, and the count of an image that was never registered as no number once it has a
container. -/
theorem never_registered_found :
    ((RegistryStep.serveAll .fresh [.newEnv id .empty]).run
        (Registry.standard.getRelease id).run).1 = .ok ⟨id, ""⟩ ∧
      ((RegistryStep.serveAll .fresh [.registerContainer container]).run
        (Registry.standard.getImageCount release).run).1 =
          .error (.decode "/d/s/v/container/img:1" (.count "")) := by
  refine ⟨eq_ok_of_toOption (by decide +kernel), ?_⟩
  have hvalue : (RegistryStep.serveAll .fresh [.registerContainer container]).tree.value?
      release.countEntry.standardPath = (some "").map Text.Utf8.encode := by decide +kernel
  have hfaults := (RegistryStep.faultFree_serveAll (s := .fresh) ⟨rfl, rfl⟩
    [.registerContainer container]).faults
  rw [(Service.run_of_faults_eq_nil _ hfaults).1,
    Tree.run_getImageCount (by decide) hvalue]
  rfl

end OtherOperations

end Coordination
