import Coordination.Proofs.Namespace.Identifiers

/-!
# Identifiers and their formats

Every reader of identifiers undoes its format. A text is a reference to an image if it has a colon
with no colon or slash behind it, and it is read as the parts around that colon and as nothing
else; the tag is a version and a build around its last hyphen, or a version without hyphens. So
the parts tell the text, up to a hyphen at the end of a tag that has no other: behind it stands an
empty build, as if the hyphen were missing. A pair has its separator once.
-/

namespace Coordination

namespace ImageReference

variable {s : String} {r : ImageReference} {e : BadImage}

/-- A text is the reference if a colon stands between its parts. This is the last colon, and it
belongs to a port if a slash comes behind it; so the tag has neither. -/
def IsWritten (r : ImageReference) (s : String) : Prop :=
  s = r.repository ++ ":" ++ r.tag ∧ ':' ∉ r.tag.toList ∧ '/' ∉ r.tag.toList

instance (r : ImageReference) (s : String) : Decidable (r.IsWritten s) :=
  inferInstanceAs (Decidable (_ ∧ _))

theorem parse_eq_ok_iff : parse s = .ok r ↔ r.IsWritten s := by
  rw [IsWritten, Text.eq_cut_iff ':' rfl, parse]
  constructor
  · intro h
    split at h
    · rename_i repository tag hcut
      split at h
      · cases h
      · rename_i hslash
        cases h
        rw [String.toList_ofList, String.toList_ofList]
        obtain ⟨hs, hcolon⟩ := Text.splitLast_eq_some_iff.1 hcut
        exact ⟨hs, hcolon, hslash⟩
    · cases h
  · rintro ⟨hs, hcolon, hslash⟩
    rw [Text.splitLast_eq_some_iff.2 ⟨hs, hcolon⟩]
    simp only [if_neg hslash, String.ofList_toList]

/-- A reader that fails shows the whole text. -/
theorem eq_of_parse_eq_error (h : parse s = .error e) : e = ⟨s⟩ := by
  rw [parse] at h
  split at h
  · split at h
    · cases h
      rfl
    · cases h
  · cases h
    rfl

/-- Only what is no reference is refused. -/
theorem parse_eq_error_iff :
    parse s = .error e ↔ e = ⟨s⟩ ∧ ∀ r : ImageReference, ¬ r.IsWritten s := by
  constructor
  · intro h
    refine ⟨eq_of_parse_eq_error h, fun r hr => ?_⟩
    rw [parse_eq_ok_iff.2 hr] at h
    cases h
  · rintro ⟨rfl, hnone⟩
    cases h : parse s with
    | ok r => exact absurd (parse_eq_ok_iff.1 h) (hnone r)
    | error e => rw [eq_of_parse_eq_error h]

end ImageReference

namespace ImageVersion

variable {s s' : String} {v : ImageVersion} {e : BadImage} {tag tag' : String}

/-- A text is the tag of the image if it is the version, without hyphens and where the build is
empty, or the version and the build with a hyphen between them that is the last. -/
def IsTag (v : ImageVersion) (tag : String) : Prop :=
  (tag = v.version ∧ v.build = "" ∧ '-' ∉ tag.toList) ∨
    (tag = v.version ++ "-" ++ v.build ∧ '-' ∉ v.build.toList)

instance (v : ImageVersion) (tag : String) : Decidable (v.IsTag tag) :=
  inferInstanceAs (Decidable (_ ∨ _))

/-- A text is a reference to the image if it has its repository and a tag of it. -/
def IsWritten (v : ImageVersion) (s : String) : Prop :=
  ∃ tag, (⟨v.repository, tag⟩ : ImageReference).IsWritten s ∧ v.IsTag tag

theorem ofReference_eq_iff {r : ImageReference} :
    ofReference r = v ↔ r.repository = v.repository ∧ v.IsTag r.tag := by
  obtain ⟨repository, version, build⟩ := v
  rw [ofReference, ImageVersion.mk.injEq, ← Prod.mk.injEq, IsTag, Text.eq_cut_iff '-' rfl,
    ImageReference.versionAndBuild]
  refine and_congr_right fun _ => ?_
  constructor
  · intro h
    split at h
    · rename_i before after hcut
      cases h
      rw [String.toList_ofList, String.toList_ofList]
      exact Or.inr (Text.splitLast_eq_some_iff.1 hcut)
    · rename_i hnone
      cases h
      exact Or.inl ⟨rfl, rfl, Text.splitLast_eq_none_iff.1 hnone⟩
  · rintro (⟨htag, rfl, hplain⟩ | hcut)
    · rw [Text.splitLast_eq_none_iff.2 hplain, htag]
    · rw [Text.splitLast_eq_some_iff.2 hcut]
      simp only [String.ofList_toList]

theorem parse_eq_ok_iff : parse s = .ok v ↔ v.IsWritten s := by
  rw [parse]
  constructor
  · intro h
    cases hr : ImageReference.parse s with
    | error e =>
      rw [hr] at h
      cases h
    | ok r =>
      rw [hr] at h
      obtain ⟨hrepository, htag⟩ := ofReference_eq_iff.1 (Except.ok.inj h)
      exact ⟨r.tag, hrepository ▸ ImageReference.parse_eq_ok_iff.1 hr, htag⟩
  · rintro ⟨tag, hs, htag⟩
    rw [ImageReference.parse_eq_ok_iff.2 hs]
    exact congrArg Except.ok (ofReference_eq_iff.2 ⟨rfl, htag⟩)

theorem parse_eq_error_iff : parse s = .error e ↔ ImageReference.parse s = .error e := by
  rw [parse]
  cases ImageReference.parse s with
  | error e' => rw [Except.map, Except.error.injEq, Except.error.injEq]
  | ok r => exact iff_of_false nofun nofun

/-- An image is read from the same texts as a reference. -/
theorem exists_parse_iff : (∃ v, parse s = .ok v) ↔ ∃ r, ImageReference.parse s = .ok r := by
  constructor
  · rintro ⟨v, hv⟩
    obtain ⟨tag, hs, -⟩ := parse_eq_ok_iff.1 hv
    exact ⟨_, ImageReference.parse_eq_ok_iff.2 hs⟩
  · rintro ⟨r, hr⟩
    exact ⟨ofReference r, by rw [parse, hr]; rfl⟩

/-- Tags of one image differ by a hyphen at the end if at all. -/
theorem IsTag.eq_or_trailing (h : v.IsTag tag) (h' : v.IsTag tag') :
    tag' = tag ∨ tag' = tag ++ "-" ∨ tag = tag' ++ "-" := by
  rcases h with ⟨htag, hbuild, -⟩ | ⟨htag, -⟩
  · rcases h' with ⟨htag', -⟩ | ⟨htag', -⟩
    · exact Or.inl (htag'.trans htag.symm)
    · rw [hbuild, String.append_empty, ← htag] at htag'
      exact Or.inr (Or.inl htag')
  · rcases h' with ⟨htag', hbuild', -⟩ | ⟨htag', -⟩
    · rw [hbuild', String.append_empty, ← htag'] at htag
      exact Or.inr (Or.inr htag)
    · exact Or.inl (htag'.trans htag.symm)

theorem IsWritten.eq_or_trailing (h : v.IsWritten s) (h' : v.IsWritten s') :
    s' = s ∨ s' = s ++ "-" ∨ s = s' ++ "-" := by
  obtain ⟨tag, ⟨rfl, -⟩, htag⟩ := h
  obtain ⟨tag', ⟨rfl, -⟩, htag'⟩ := h'
  rcases htag.eq_or_trailing htag' with rfl | rfl | rfl
  · exact Or.inl rfl
  · exact Or.inr (Or.inl String.append_assoc.symm)
  · exact Or.inr (Or.inr String.append_assoc.symm)

end ImageVersion

/-- Every reader of identifiers answers with the parts of a text exactly if the text is these
parts in the format, and refuses it if it is none. Texts that are read as one image are equal up
to a hyphen at the end. -/
theorem identifiers_read_as_written (s : String) :
    (∀ r, ImageReference.parse s = .ok r ↔ r.IsWritten s) ∧
    (∀ e, ImageReference.parse s = .error e ↔
      e = ⟨s⟩ ∧ ∀ r : ImageReference, ¬ r.IsWritten s) ∧
    (∀ v, ImageVersion.parse s = .ok v ↔ v.IsWritten s) ∧
    ((∃ v, ImageVersion.parse s = .ok v) ↔ ∃ r, ImageReference.parse s = .ok r) ∧
    (∀ e, ImageVersion.parse s = .error e ↔ ImageReference.parse s = .error e) ∧
    (∀ s' v, ImageVersion.parse s = .ok v → ImageVersion.parse s' = .ok v →
      s' = s ∨ s' = s ++ "-" ∨ s = s' ++ "-") ∧
    (∀ a b, parseLiveValue? s = some (a, b) ↔
      s = a ++ "," ++ b ∧ ',' ∉ a.toList ∧ ',' ∉ b.toList) ∧
    (∀ a b, parseHostPort? s = some (a, b) ↔
      s = a ++ ":" ++ b ∧ ':' ∉ a.toList ∧ ':' ∉ b.toList) := by
  refine ⟨fun _ => ImageReference.parse_eq_ok_iff, fun _ => ImageReference.parse_eq_error_iff,
    fun _ => ImageVersion.parse_eq_ok_iff, ImageVersion.exists_parse_iff,
    fun _ => ImageVersion.parse_eq_error_iff, fun s' v h h' => ?_,
    fun _ _ => Text.splitPair?_eq_some_iff_cut rfl,
    fun _ _ => Text.splitPair?_eq_some_iff_cut rfl⟩
  have hs := ImageVersion.parse_eq_ok_iff.1 h
  have hs' := ImageVersion.parse_eq_ok_iff.1 h'
  exact hs.eq_or_trailing hs'

/-- A colon before a slash belongs to a port, and only the last hyphen of a tag is a cut. -/
example : ImageReference.parse "registry:5000/api" = .error ⟨"registry:5000/api"⟩ ∧
    ImageVersion.parse "repo:1.2-rc-3" = .ok ⟨"repo", "1.2-rc", "3"⟩ := ⟨rfl, rfl⟩

namespace TrailingHyphen

/-- A tag without build and the same tag with a hyphen behind it. -/
def image : ImageVersion := ⟨"registry:5000/team/api", "1.2", ""⟩

theorem read_as_one :
    ImageVersion.parse "registry:5000/team/api:1.2" = .ok image ∧
    ImageVersion.parse "registry:5000/team/api:1.2-" = .ok image ∧
    ("registry:5000/team/api:1.2-" = "registry:5000/team/api:1.2" ∨
      "registry:5000/team/api:1.2-" = "registry:5000/team/api:1.2" ++ "-" ∨
      "registry:5000/team/api:1.2" = "registry:5000/team/api:1.2-" ++ "-") := by
  have h : ImageVersion.parse "registry:5000/team/api:1.2" = .ok image := by rfl
  have h' : ImageVersion.parse "registry:5000/team/api:1.2-" = .ok image := by rfl
  have hwritten := identifiers_read_as_written "registry:5000/team/api:1.2"
  exact ⟨h, h', hwritten.2.2.2.2.2.1 _ _ h h'⟩

end TrailingHyphen

end Coordination
