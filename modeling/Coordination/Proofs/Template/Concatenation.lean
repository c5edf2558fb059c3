import Coordination.Proofs.Template.Grammar

/-!
# Templates in a row

Two sources in a row are a template if both are, unless a brace at the end of the first and one
at the start of the second meet. A text at the end of the first and one at the start of the
second become one text; all other segments stay as they are. So the whole renders to what the
two render to, and fails where one of them fails, the first one first.
-/

namespace Coordination

namespace Segment

variable {g : Segment} {s t : List Char} {pieces pieces' : List (Segment × List Char)}

/-- The segments of two sources in a row. -/
def join : List Segment → List Segment → List Segment
  | [], more => more
  | [.text a], .text b :: more => .text (a ++ b) :: more
  | g :: rest, more => g :: join rest more

@[simp] theorem join_nil_left (more : List Segment) : join [] more = more := rfl

@[simp] theorem join_field (path : List String) (rest more : List Segment) :
    join (.field path :: rest) more = .field path :: join rest more := rfl

@[simp] theorem join_cons_cons (g g' : Segment) (rest more : List Segment) :
    join (g :: g' :: rest) more = g :: join (g' :: rest) more := by
  cases g <;> rfl

@[simp] theorem join_text_text (a b : String) (more : List Segment) :
    join [.text a] (.text b :: more) = .text (a ++ b) :: more := rfl

/-- Whether the braces at the end of one text and at the start of another meet. -/
def Meet (s t : List Char) : Prop := s.getLast? = some '\x7b' ∧ t.head? = some '\x7b'

instance (s t : List Char) : Decidable (Meet s t) := inferInstanceAs (Decidable (_ ∧ _))

theorem Meet.append_left {w : List Char} (h : Meet s t) : Meet (w ++ s) t := by
  refine ⟨?_, h.2⟩
  rw [List.getLast?_append, h.1]
  rfl

theorem Meet.append_right (h : Meet s t) (w : List Char) : Meet s (t ++ w) := by
  refine ⟨h.1, ?_⟩
  rw [List.head?_append, h.2]
  rfl

theorem not_infix_append (hs : ¬ opening <:+: s) (ht : ¬ opening <:+: t) (h : ¬ Meet s t) :
    ¬ opening <:+: s ++ t := fun hinfix => by
  rcases Text.pair_infix_append_iff.1 hinfix with hs' | ht' | hmeet
  · exact hs hs'
  · exact ht ht'
  · exact h hmeet

/-- Two texts in a row are one text. -/
theorem Written.append {a b : String} {v w : List Char} (ha : Written (.text a) v)
    (hb : Written (.text b) w) (h : ¬ Meet v w) : Written (.text (a ++ b)) (v ++ w) := by
  cases ha with
  | text ha hplain =>
    cases hb with
    | text hb hplain' =>
      rw [← String.toList_append]
      refine .text (fun hempty => ha (String.append_eq_empty_iff.1 hempty).1) ?_
      rw [String.toList_append]
      exact not_infix_append hplain hplain' h

/-- A text may be followed by what may follow its end. -/
theorem mayPrecede_text_append {a b : String} (hb : b ≠ "") (h : (Segment.text b).MayPrecede g) :
    (Segment.text (a ++ b)).MayPrecede g := by
  cases g with
  | text c => exact h
  | field path =>
    have hlast : (a ++ b).toList.getLast? = b.toList.getLast? := by
      rw [String.toList_append]
      exact List.getLast?_append_of_ne_nil _ fun hnil => hb (String.toList_eq_nil_iff.1 hnil)
    exact fun h' => h (hlast.symm.trans h')

theorem Written.toList_eq {a : String} {w : List Char} (h : Written (.text a) w) :
    w = a.toList ∧ a ≠ "" := by
  cases h with
  | text hne _ => exact ⟨rfl, hne⟩

/-- The cut of a text and a source in a row. -/
theorem Written.exists_join {a : String} {w : List Char} (ha : Written (.text a) w)
    (ht : Cuts pieces t) (h : ¬ Meet w t) :
    ∃ joined, Cuts joined (w ++ t) ∧
      joined.map Prod.fst = join [.text a] (pieces.map Prod.fst) := by
  match pieces with
  | [] => exact ⟨[(.text a, w)], cuts_cons_iff.2 ⟨ha, by simp, t, rfl, ht⟩, rfl⟩
  | (.field path, v) :: pieces =>
    refine ⟨(.text a, w) :: (.field path, v) :: pieces,
      cuts_cons_iff.2 ⟨ha, ?_, t, rfl, ht⟩, rfl⟩
    rintro next ⟨⟩ hlast
    obtain ⟨rest, rfl⟩ := ht.starts_with_opening
    exact h ⟨ha.toList_eq.1 ▸ hlast, rfl⟩
  | (.text b, v) :: pieces =>
    obtain ⟨hb, hnext, rest, rfl, hpieces⟩ := cuts_cons_iff.1 ht
    obtain ⟨rfl, hne⟩ := hb.toList_eq
    have hmeet : ¬ Meet w b.toList := fun hmeet => h (hmeet.append_right rest)
    refine ⟨(.text (a ++ b), w ++ b.toList) :: pieces, cuts_cons_iff.2 ⟨ha.append hb hmeet,
      fun next hg => mayPrecede_text_append hne (hnext next hg), rest,
      (List.append_assoc ..).symm, hpieces⟩, rfl⟩

/-- The cut of two sources in a row. -/
theorem Cuts.exists_join (hs : Cuts pieces s) (ht : Cuts pieces' t) (h : ¬ Meet s t) :
    ∃ joined, Cuts joined (s ++ t) ∧
      joined.map Prod.fst = join (pieces.map Prod.fst) (pieces'.map Prod.fst) := by
  induction pieces generalizing s with
  | nil =>
    rw [cuts_nil_iff.1 hs]
    exact ⟨pieces', ht, rfl⟩
  | cons piece pieces ih =>
    obtain ⟨g, w⟩ := piece
    obtain ⟨hg, hnext, rest, rfl, hpieces⟩ := cuts_cons_iff.1 hs
    obtain ⟨joined, hjoined, hsegments⟩ := ih hpieces fun hmeet => h hmeet.append_left
    match g, pieces with
    | .field path, pieces =>
      refine ⟨(.field path, w) :: joined, cuts_cons_iff.2 ⟨hg, fun _ _ => trivial, rest ++ t,
        List.append_assoc .., hjoined⟩, ?_⟩
      rw [List.map_cons, List.map_cons, join_field, hsegments]
    | .text a, [] =>
      obtain rfl := cuts_nil_iff.1 hpieces
      rw [List.append_nil] at h ⊢
      exact hg.exists_join ht h
    | .text a, (.text b, v) :: pieces => exact absurd (hnext _ rfl) id
    | .text a, (.field path, v) :: pieces =>
      refine ⟨(.text a, w) :: joined, cuts_cons_iff.2 ⟨hg, fun g' hg' => ?_, rest ++ t,
        List.append_assoc .., hjoined⟩, ?_⟩
      · -- the field stays at the start of what follows the text
        rw [hsegments] at hg'
        exact hnext g' hg'
      · rw [List.map_cons, List.map_cons, List.map_cons, join_cons_cons, hsegments]
        rfl

end Segment

namespace Template

variable {name : String} {context : Data} {a b : String} {t u : Template}

theorem render_nil (name : String) (context : Data) :
    (Template.mk name []).render context = .ok "" := rfl

/-- Segments in a row render to what the first ones and the others render to. -/
theorem render_join (name : String) (context : Data) (segments more : List Segment) :
    (Template.mk name (Segment.join segments more)).render context = (do
      let first ← (Template.mk name segments).render context
      let second ← (Template.mk name more).render context
      pure (first ++ second)) := by
  induction segments, more using Segment.join.induct with
  | case1 more =>
    rw [Segment.join_nil_left, render_nil]
    cases (Template.mk name more).render context with
    | error fault => rfl
    | ok s => exact congrArg Except.ok String.empty_append.symm
  | case2 a b more =>
    rw [Segment.join_text_text, render_cons, render_cons, render_cons, render_nil]
    cases (Template.mk name more).render context with
    | error fault => rfl
    | ok s =>
      show Except.ok (a ++ b ++ s) = Except.ok (a ++ "" ++ (b ++ s))
      rw [String.append_empty, String.append_assoc]
  | case3 g rest more hne ih =>
    rw [Segment.join, render_cons, render_cons, ih]
    · simp only [bind_assoc, pure_bind, String.append_assoc]
    · exact hne

/-- Two templates in a row are a template, and it renders to what they render to. -/
theorem exists_parse_append (ha : parse name a = .ok t) (hb : parse name b = .ok u)
    (h : ¬ Segment.Meet a.toList b.toList) : ∃ both, parse name (a ++ b) = .ok both ∧
      ∀ context, both.render context = (do
        let first ← t.render context
        let second ← u.render context
        pure (first ++ second)) := by
  obtain ⟨pieces, hpieces, rfl⟩ := parse_eq_ok_iff.1 ha
  obtain ⟨pieces', hpieces', rfl⟩ := parse_eq_ok_iff.1 hb
  obtain ⟨joined, hjoined, hsegments⟩ := hpieces.exists_join hpieces' h
  rw [← String.toList_append] at hjoined
  have hparse : parse name (a ++ b) = .ok ⟨name, joined.map Prod.fst⟩ :=
    parse_eq_ok_iff.2 ⟨joined, hjoined, rfl⟩
  refine ⟨⟨name, joined.map Prod.fst⟩, hparse, fun context => ?_⟩
  rw [hsegments, render_join]

/-- A source compiles exactly if it can be cut into texts and actions, in one way at most, and
to the segments of this cut; printed and compiled again they are the same; and sources whose
braces do not meet compile and render in a row as they do alone. -/
theorem parse_is_exact (name source : String) :
    (∀ t, parse name source = .ok t ↔
      ∃ pieces, Segment.Cuts pieces source.toList ∧ t = ⟨name, pieces.map Prod.fst⟩) ∧
    (∀ pieces pieces', Segment.Cuts pieces source.toList → Segment.Cuts pieces' source.toList →
      pieces = pieces') ∧
    (∀ t, parse name source = .ok t → parse name t.source = .ok t) ∧
    (∀ t more u, parse name source = .ok t → parse name more = .ok u →
      ¬ Segment.Meet source.toList more.toList →
      ∃ both, parse name (source ++ more) = .ok both ∧ ∀ context, both.render context = (do
        let first ← t.render context
        let second ← u.render context
        pure (first ++ second))) :=
  ⟨fun _ => parse_eq_ok_iff, fun _ _ h h' => h.unique h', fun _ => parse_printed,
    fun _ _ _ ha hb h => exists_parse_append ha hb h⟩

/-- Braces of two texts that stand next to each other open no action. -/
theorem parse_is_exact_between_texts :
    parse "path" "pkg/\x7b\x7b .name \x7d\x7d\x7d" =
        .ok ⟨"path", [.text "pkg/", .field ["name"], .text "\x7d"]⟩ ∧
      parse "path" "\x7bv\x7b\x7b.id\x7d\x7d" =
        .ok ⟨"path", [.text "\x7bv", .field ["id"]]⟩ ∧
      ∃ both, parse "path" ("pkg/\x7b\x7b .name \x7d\x7d\x7d" ++
          "\x7bv\x7b\x7b.id\x7d\x7d") = .ok both ∧
        ∀ context, both.render context = (do
          let first ←
            (Template.mk "path" [.text "pkg/", .field ["name"], .text "\x7d"]).render context
          let second ← (Template.mk "path" [.text "\x7bv", .field ["id"]]).render context
          pure (first ++ second)) := by
  have ha : parse "path" "pkg/\x7b\x7b .name \x7d\x7d\x7d" =
      .ok ⟨"path", [.text "pkg/", .field ["name"], .text "\x7d"]⟩ :=
    eq_ok_of_toOption (by decide +kernel)
  have hb : parse "path" "\x7bv\x7b\x7b.id\x7d\x7d" =
      .ok ⟨"path", [.text "\x7bv", .field ["id"]]⟩ :=
    eq_ok_of_toOption (by decide +kernel)
  have hexact := parse_is_exact "path" "pkg/\x7b\x7b .name \x7d\x7d\x7d"
  exact ⟨ha, hb, hexact.2.2.2 _ _ _ ha hb (by decide)⟩

end Template

end Coordination
