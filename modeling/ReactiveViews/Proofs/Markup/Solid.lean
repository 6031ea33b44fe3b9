import ReactiveViews.Proofs.Dom.Edits
import ReactiveViews.Proofs.Markup.Reading
/-!
# Compiled trees are solid

The fragment of a template is around everything that is compiled, and there is no other:
no compiled tree is a fragment, or has one inside (`Markup.solidAll_of_run`).
-/

namespace ReactiveViews

namespace Markup

/-- Nothing that a level has so far is a fragment, or has one inside. -/
def Level.Solid (l : Level) : Prop := ∀ t ∈ l.done, t.content.kind ≠ .fragment ∧ t.Solid

theorem Level.Solid.add {l : Level} (h : l.Solid) {t : Tree} (hk : t.content.kind ≠ .fragment)
    (ht : t.Solid) : (l.add t).Solid :=
  List.forall_mem_cons.mpr ⟨⟨hk, ht⟩, h⟩

theorem Level.Solid.addLeaf {l : Level} (h : l.Solid) {content : Content}
    (hk : content.kind ≠ .fragment) : (l.add (.node content [])).Solid :=
  h.add hk trivial

theorem Level.Solid.trees {l : Level} (h : l.Solid) : Tree.SolidAll l.done.reverse :=
  Tree.solidAll_iff.mpr fun t ht => h t (List.mem_reverse.mp ht)

theorem Level.Solid.addText {pos : Nat} {found : List Segment} {top top' : Level} {s s' : Supply}
    (h : top.Solid) (ha : Markup.addText pos found top s = .ok (top', s')) : top'.Solid := by
  induction found generalizing top s with
  | nil =>
    obtain ⟨rfl, -⟩ := Prod.mk.inj (Except.ok.inj ha)
    exact h
  | cons segment found ih =>
    cases segment with
    | text cs => exact ih (h.addLeaf fun hk => by cases hk) ha
    | marker index =>
      rw [addText_marker] at ha
      split at ha
      · exact absurd ha (by simp)
      · refine ih ?_ ha
        unfold placeholder
        split
        · exact h.addLeaf fun hk => by cases hk
        · exact h.addLeaf fun hk => by cases hk

/-- Fragments are only around all levels. -/
def State.Solid (s : State) : Prop := s.top.Solid ∧ ∀ l ∈ s.outer, l.Solid

theorem State.Moves.solid {s s' : State} (h : s.Moves s') (hs : s.Solid) : s'.Solid := by
  obtain ⟨htop, houter⟩ := hs
  cases h with
  | comment => exact ⟨htop.addLeaf (fun hk => by cases hk), houter⟩
  | @closing _ _ parent outer _ ho hk =>
    obtain ⟨hparent, houter⟩ := List.forall_mem_cons.mp (ho ▸ houter)
    refine ⟨hparent.add ?_ htop.trees, houter⟩
    rw [Level.close, Tree.content, hk]
    simp
  | element => exact ⟨htop.addLeaf (fun hk => by cases hk), houter⟩
  | opened => exact ⟨fun t ht => absurd ht List.not_mem_nil, List.forall_mem_cons.mpr ⟨htop, houter⟩⟩
  | text _ _ _ ht => exact ⟨htop.addText ht, houter⟩

/-- **No fragment is inside a compiled tree.** -/
theorem solidAll_of_run {source : List Char} {dynamics : List Dynamic} {c : Compiled}
    (h : run (initial source dynamics) = .ok c) : Tree.SolidAll c.trees := by
  obtain ⟨s, hreads, -, hfinish⟩ := reads_of_run h
  have hs : s.Solid := by
    clear hfinish
    induction hreads with
    | refl => exact ⟨fun t ht => absurd ht List.not_mem_nil, fun l hl => absurd hl List.not_mem_nil⟩
    | tail _ hstep ih => exact (moves_of_step hstep).solid ih
  unfold finish at hfinish
  split at hfinish
  · exact absurd hfinish (by simp)
  · obtain rfl := Step.done.inj (Except.ok.inj hfinish)
    exact hs.1.trees

end Markup

end ReactiveViews
