import Coordination.Proofs.Namespace.Identifiers
import Coordination.Proofs.Registry.LivePointer
import Coordination.Proofs.Registry.Registrations
import Coordination.Proofs.Tree.Footprint

/-!
# Reading a live pointer back

A live pointer is stored as its two paths with a comma between them, and read as what stands on
both sides of the only comma. Making a release live therefore succeeds with any paths, but a
pointer with a comma in one of them is not read back at all; it is never read as another one.
Whatever was in the tree, the pointer and the watched node below it are all that is written, and
the nodes above them only grow.
-/

namespace Coordination

namespace Registry

theorem standardPath_live (p : LivePointer) :
    (Entry.live p).standardPath = livePath p.domain p.service := by
  have hpath := templates_path_eq standard (.live p)
  rw [Entry.cell_standard] at hpath
  exact (Except.ok.inj ((path_live p).symm.trans hpath)).symm

theorem standardPath_liveWatch (domain service : String) :
    (Entry.liveWatch domain service).standardPath = livePath domain service ++ "/" ++ "watch" := by
  have hpath := templates_path_eq standard (.liveWatch domain service)
  rw [Entry.cell_standard] at hpath
  exact (Except.ok.inj ((path_liveWatch domain service).symm.trans hpath)).symm

/-- The payload of a live pointer is read as the pointer's paths, or not at all. -/
theorem parseLiveValue?_payload (p : LivePointer) :
    parseLiveValue? (Entry.live p).payload =
      if ',' ∈ p.containerPath.toList ∨ ',' ∈ p.envPath.toList then none
      else some (p.containerPath, p.envPath) := by
  have hparts : (Entry.live p).payload.toList =
      p.containerPath.toList ++ ',' :: p.envPath.toList := by
    simp [Entry.payload]
  exact Text.splitPair?_of_parts hparts

variable {t t' : Tree} {p : LivePointer}

theorem setLive_eq (p : LivePointer) : standard.setLive p =
    (Action.put (livePath p.domain p.service) (Text.Utf8.encode (Entry.live p).payload) >>=
      fun _ => Action.put (livePath p.domain p.service ++ "/" ++ "watch")
        (Text.Utf8.encode "0")) := by
  rw [setLive, store_eq (Entry.cell_standard _), store_eq (Entry.cell_standard _),
    standardPath_live, standardPath_liveWatch]
  rfl

/-- Making a release live writes two values, one below the other. -/
theorem run_setLive (ht : t.Sound) (hlocked : t.locked = none)
    (hlive : Path.isValid (livePath p.domain p.service) = true) :
    ∃ t', t.run (standard.setLive p).run = (.ok (), t') ∧
      t'.value? (livePath p.domain p.service) =
        some (Text.Utf8.encode (Entry.live p).payload) ∧
      ∀ q, q ≠ livePath p.domain p.service →
        q ≠ livePath p.domain p.service ++ "/" ++ "watch" →
        t.OnlyGrows t' (livePath p.domain p.service ++ "/" ++ "watch") q := by
  have hroot := livePath_ne_root p.domain p.service
  have hbelow := below_livePath p.domain p.service
  have hwatch := Path.isValid_child hlive hroot (n := "watch") (by decide)
  obtain ⟨t₁, hfirst, hlocked₁, hstores⟩ :=
    Tree.run_put ht hlocked hlive (Text.Utf8.encode (Entry.live p).payload)
  obtain ⟨t₂, hsecond, -, hstores'⟩ :=
    Tree.run_put hstores.sound hlocked₁ hwatch (Text.Utf8.encode "0")
  refine ⟨t₂, ?_, ?_, fun q hq hq' => ?_⟩
  · rw [setLive_eq, Tree.run_bind_ok hfirst]
    exact hsecond
  · have hhas := Tree.has_iff_value?.2 ⟨_, hstores.value⟩
    exact ((hstores'.others _ hbelow.ne).value hhas).trans hstores.value
  · exact ((hstores.others q hq).mono hbelow).trans (hstores'.others q hq')

/-- What is read of a pointer that is stored. -/
theorem run_getLive (hlive : Path.isValid (livePath p.domain p.service) = true)
    (hvalue : t.value? (livePath p.domain p.service) =
      some (Text.Utf8.encode (Entry.live p).payload)) :
    t.run (standard.getLive p.domain p.service).run =
      (.ok (if ',' ∈ p.containerPath.toList ∨ ',' ∈ p.envPath.toList then none else some p),
        t) := by
  obtain ⟨n, hnode, hn⟩ := Tree.run_node_of_value hlive hvalue
  rw [getLive, Entry.path_standard, standardPath_live, pure_bind, Tree.run_bind_ok hnode,
    Tree.run_bind_ok (Tree.run_decode hn), parseLiveValue?_payload]
  split <;> rfl

/-- On any tree that calls can grow and where nothing is made to fail, making a release live
succeeds. The pointer is then read back exactly if no comma stands in its paths, and otherwise
none is read. Nothing but the pointer and the watched node is written; nodes above them are at
most created without values and count new children, and all others stay as they are. -/
theorem live_pointer_read_back {s : Service} (hs : s.FaultFree) (hreachable : s.tree.Reachable)
    (hlive : Path.isValid (livePath p.domain p.service) = true) :
    ∃ s', s.run (standard.setLive p).run = (.ok (), s') ∧
      (s'.run (standard.getLive p.domain p.service).run).1 =
        .ok (if ',' ∈ p.containerPath.toList ∨ ',' ∈ p.envPath.toList then none
          else some p) ∧
      ∀ q, q ≠ livePath p.domain p.service →
        q ≠ livePath p.domain p.service ++ "/" ++ "watch" →
        s.tree.OnlyGrows s'.tree (livePath p.domain p.service ++ "/" ++ "watch") q := by
  obtain ⟨t', hset, hvalue, hothers⟩ := run_setLive hreachable.sound hs.unlocked hlive
  obtain ⟨hreply, htree, hfaults⟩ := Service.run_of_faults_eq_nil (standard.setLive p).run hs.faults
  rw [hset] at hreply htree
  obtain ⟨hread, -, -⟩ :=
    Service.run_of_faults_eq_nil (standard.getLive p.domain p.service).run hfaults
  refine ⟨(s.run (standard.setLive p).run).2, Prod.ext hreply rfl, ?_, ?_⟩
  · rw [hread, htree, run_getLive hlive hvalue]
  · rw [htree]
    exact hothers

end Registry

namespace CommaInPath

open Registry

/-- A pointer as it is made from a release. -/
def plain : LivePointer := ⟨"d", "s", "/d/s/v/container/i", "/d/s/v/env"⟩

/-- A pointer to the environment of a version that has a comma in its name. -/
def odd : LivePointer := { plain with envPath := "/d/s/v,1/env" }

/-- Some release is live already. -/
def service : Service := (Service.fresh.run (standard.setLive odd).run).2

/-- The first pointer replaces the one that is there and is read back, the second one is not. -/
theorem only_plain_read_back :
    (∃ s', service.run (standard.setLive plain).run = (.ok (), s') ∧
      (s'.run (standard.getLive "d" "s").run).1 = .ok (some plain)) ∧
    ∃ s', service.run (standard.setLive odd).run = (.ok (), s') ∧
      (s'.run (standard.getLive "d" "s").run).1 = .ok none := by
  have hs : service.FaultFree := Service.FaultFree.run ⟨rfl, rfl⟩ _
  have hreachable : service.tree.Reachable := Service.reachable_run _ .empty
  obtain ⟨s₁, hset, hget, -⟩ := live_pointer_read_back hs hreachable (p := plain) (by decide)
  obtain ⟨s₂, hset', hget', -⟩ := live_pointer_read_back hs hreachable (p := odd) (by decide)
  rw [if_neg (by decide)] at hget
  rw [if_pos (by decide)] at hget'
  exact ⟨⟨s₁, hset, hget⟩, s₂, hset', hget'⟩

end CommaInPath

end Coordination
