import ReactiveViews.Proofs.Dom.Rosters
import ReactiveViews.Proofs.Flush
import ReactiveViews.Proofs.Linkage
/-!
# Numbers of listeners

Whatever runs, the document changes as a roster of its listeners does (`World.Hears`). So a number that was given
to a listener removes that listener and no other, whatever has been registered, removed and called in between, and
nothing if the listener is gone, *as long as the number has not been given again*. Whoever keeps a number beyond
that removes somebody else: a listener that is called once vacates its number without those who know it being told.
-/

namespace ReactiveViews

namespace World

variable {w w' : World}

/-- **Hearing.** The document changes as a roster does, and what has been made stays. -/
structure Hears (w w' : World) : Prop where
  grown : w.behaviors.size ≤ w'.behaviors.size
  follows : ∃ hs, w.document.Follows hs w'.document

namespace Hears

theorem of_eq (hb : w'.behaviors = w.behaviors) (hd : w'.document = w.document) : w.Hears w' :=
  ⟨Nat.le_of_eq (congrArg Store.size hb.symm), [], Document.follows_of_same fun _ => by rw [hd]⟩

theorem refl (w : World) : w.Hears w := of_eq rfl rfl

theorem trans {a b c : World} (h : a.Hears b) (h' : b.Hears c) : a.Hears c := by
  obtain ⟨hs, hf⟩ := h.follows
  obtain ⟨later, hf'⟩ := h'.follows
  exact ⟨Nat.le_trans h.grown h'.grown, hs ++ later, hf.trans hf'⟩

theorem of_change {Mild : Subject → Prop} (h : Change Mild w w') : w.Hears w' := by
  refine ⟨h.size_behaviors, ?_⟩
  have hsame : w'.document = w.document → ∃ hs, w.document.Follows hs w'.document :=
    fun hd => ⟨[], Document.follows_of_same fun _ => by rw [hd]⟩
  cases h with
  | move h => exact h.follows
  | shows h => exact (h.edit _).follows
  | created h => exact h.edited.follows
  | sweep => exact ⟨[], Document.follows_of_same (Document.listeners_orphan _ _)⟩
  | ask scheduler => exact hsame (document_follow w (.schedule scheduler))
  | queued h => exact hsame ((document_follow _ _).trans h.document)
  | request => exact hsame (document_follow _ _)
  | _ => exact hsame rfl

theorem of_setup (h : Setup w w') : w.Hears w' := by
  cases h with
  | edit h => exact ⟨Nat.le_refl _, h.follows⟩
  | _ => exact of_eq rfl rfl

theorem of_write (h : Write w w') : w.Hears w' := by
  cases h <;> exact of_eq rfl rfl

theorem of_access (h : Access w w') : w.Hears w' := by
  cases h <;> exact of_eq rfl rfl

theorem of_adjustment (h : Adjustment w w') : w.Hears w' := by
  refine of_eq h.behaviors ?_
  cases h with
  | await => exact document_follow _ _
  | _ => rfl

theorem of_queued {Mild : Subject → Prop} {next : FollowUp} (h : Queued Mild w next w') : w.Hears w' :=
  of_eq h.behaviors h.document

end Hears

/-- **On a roster.** Some history of registrations has led to the listeners of the document. -/
def Rostered (w : World) : Prop := ∃ hs, (Roster.none.after hs).Of w.document

theorem Hears.rostered (h : w.Hears w') (hw : w.Rostered) : w'.Rostered := by
  obtain ⟨hs, hr⟩ := hw
  obtain ⟨later, hf⟩ := h.follows
  exact ⟨hs ++ later, Roster.after_append hs later ▸ hf _ hr⟩

theorem rostered_empty : World.empty.Rostered := ⟨[], fun _ => rfl⟩

end World

/-- **The regime of rosters.** -/
def hearing : Regime where
  allowed _ _ := true
  Mild _ := True
  Inv := World.Rostered
  Rel := World.Hears
  Entry _ := World.Rostered
  Exit _ w _ w' := w.Hears w' ∧ w'.Rostered
  refl := .refl
  trans := .trans
  entry _ _ h := h
  exit _ _ _ h := h
  change hw hc := ⟨.of_change hc, (World.Hears.of_change hc).rostered hw⟩
  enter hs hw := by cases hs <;> exact hw
  leave hs _ h hw := by cases hs <;> exact ⟨⟨h.grown, h.follows⟩, hw⟩
  grown h := h.grown
  light _ _ := .inr fun _ => trivial
  takes _ _ := .inr trivial
  calledBack _ _ := .inr trivial
  watcher _ _ := .inr fun _ => trivial
  behaviors _ _ _ := trivial
  observers _ _ _ := .inr fun _ => trivial
  aspects _ _ _ := trivial

instance : hearing.Accessible where
  entry _ hw := hw
  exit _ _ h := h
  access hw hc := ⟨.of_access hc, (World.Hears.of_access hc).rostered hw⟩

instance (name : String) : hearing.Slight (.listener name) := ⟨trivial⟩

instance : hearing.Loose where
  tether _ := trivial
  lists _ := trivial
  view _ _ := trivial

instance : hearing.Uniform where
  tickets := trivial
  behavior _ := trivial
  aspect _ _ := trivial
  setup hw hc := ⟨.of_setup hc, (World.Hears.of_setup hc).rostered hw⟩
  cues := trivial
  deliver hw _ := hw
  delivered _ h := h
  write hw hc := ⟨.of_write hc, (World.Hears.of_write hc).rostered hw⟩
  flush _ hw := hw
  flushed _ _ h := h
  pressed hw hc := ⟨.of_queued hc, (World.Hears.of_queued hc).rostered hw⟩
  adjust hw hc := ⟨.of_adjustment hc, (World.Hears.of_adjustment hc).rostered hw⟩

/-- While the tasks of a flush run, the document is followed between their turns. -/
def hearingFlushing : Flushing hearing where
  Owed start _ w := start.Hears w ∧ w.Rostered
  log _ h := ⟨h.1.trans (.of_eq rfl rfl), h.2⟩
  turn h := h.2
  ran {_ w _ t rest _} h _ he :=
    ⟨(h.1.trans (World.Hears.of_eq rfl rfl : w.Hears (w.inTurn t rest))).trans
      (World.Hears.trans he.1 (.of_eq rfl rfl)), he.2⟩

theorem hearing_kept : hearing.Kept := by
  refine Regime.Uniform.kept (fun S => ⟨fun {w} hw => ?_⟩) (fun h _ => h) (fun hr hw => ⟨hr, hw⟩)
    fun S {t w} hw _ => Setting.Agrees.agreesAt (m := Machine.update t) hw
  refine hearingFlushing.process_agreesAt S (fun _ => ⟨.of_eq rfl rfl, hw⟩) fun x hx => ?_
  cases hx with
  | none => exact ⟨.of_eq rfl rfl, hw⟩
  | all _ h => exact ⟨World.Hears.trans h.1 (.of_eq rfl rfl), h.2⟩

/-- **Whatever runs is followed** by the rosters of the document. -/
theorem hears_of_run {α : Type} {m : Machine α} (hm : ∀ S : Setting hearing, S.Agrees m) {depth : Nat}
    {w w' : World} {r : Except Error α} (hw : w.Rostered) (h : m (Machine.run depth) w = some (r, w')) :
    w.Hears w' ∧ w'.Rostered := by
  rw [← Machine.runUnder_true] at h
  exact ((hm (hearing.setting hearing_kept depth)).agreesAt hw r w' h).2

/-- **A number removes its own listener.** A listener is registered somewhere in a session, and then anything is
done. The roster that has been kept from the beginning knows it as the registration `i`, and the number that was
given. As long as the number has not been given again, removing it removes this registration and no other, and if
the registration does not stand any more, all listeners of all nodes are left alone. -/
theorem number_removes_own_listener {c : Call} {w w' : World} {cs : List Command}
    (hv : Session.Visited (fun _ _ => true) c w) (n : NodeId) (l : Listener)
    (hp : Session.play (fun _ _ => true) cs { w with document := (w.document.addListener n l).2 } =
      some w') :
    ∃ before later, (Roster.none.after before).Of w.document ∧
      let i := (Roster.none.after before).given.length
      let slot := (w.document.addListener n l).1
      let r := Roster.none.after (before ++ .listen n l :: later)
      r.Of w'.document ∧ r.given[i]? = some (n, slot) ∧
        (r.step (.unlisten n slot)).Of (w'.document.removeListener n slot) ∧
        ((∀ j, i < j → r.given[j]? ≠ some (n, slot)) →
          (∀ j, (r.step (.unlisten n slot)).Stands j ↔ r.Stands j ∧ j ≠ i) ∧
          (¬ r.Stands i → ∀ m, ((w'.document.removeListener n slot).get m).listeners =
            (w'.document.get m).listeners)) := by
  obtain ⟨before, hroster⟩ := Session.entry_of_visited hearing_kept World.rostered_empty hv
  have hlisten := hroster.listen n l
  have hstart : ({ w with document := (w.document.addListener n l).2 } : World).Rostered :=
    ⟨before ++ [.listen n l], by rw [Roster.after_append]; exact hlisten⟩
  obtain ⟨⟨-, later, hfollows⟩, -⟩ := Session.keeps_of_play hearing_kept hstart hp
  have hafter := hfollows _ hlisten
  refine ⟨before, later, hroster, ?_⟩
  dsimp only
  rw [hroster.addListener_fst, Roster.after_append]
  have hsound := ((Roster.sound_none.after before).step (.listen n l)).after later
  have hgiven : (((Roster.none.after before).step (.listen n l)).after later).given[
      (Roster.none.after before).given.length]? = some (n, ((Roster.none.after before).slots n).next) :=
    Roster.given_after List.getElem?_concat_length later
  have hremoved := hafter.unlisten n ((Roster.none.after before).slots n).next
  refine ⟨hafter, hgiven, hremoved, fun hlast => ?_⟩
  obtain ⟨hown, hgone⟩ := hsound.unlisten_own hgiven hlast
  exact ⟨hown, fun hn m => (hremoved m).trans ((hgone hn).symm ▸ (hafter m).symm)⟩

/-- A listener that is to be called once is registered, and an event is dispatched. Its registration does not
stand any more, and its number can be removed without harm as long as it has not been given again. -/
theorem number_of_fired_listener : ∃ w w' l, Session.Visited (fun _ _ => true)
      (.perform (.node (.info "n"))) w ∧
    Session.play (fun _ _ => true) [.event (.dispatch "n" (.fresh "x" none))]
      { w with document := (w.document.addListener ⟨0⟩ l).2 } = some w' ∧ l.once = true ∧
    ∃ r i, Roster.Of r w'.document ∧ r.given[i]? = some (⟨0⟩, (w.document.addListener ⟨0⟩ l).1) ∧
      ¬ r.Stands i ∧ ((∀ j, i < j → r.given[j]? ≠ some (⟨0⟩, (w.document.addListener ⟨0⟩ l).1)) →
        ∀ m, ((w'.document.removeListener ⟨0⟩ (w.document.addListener ⟨0⟩ l).1).get m).listeners =
          (w'.document.get m).listeners) := by
  let l : Listener := ⟨"x", .scripted "l" [], true⟩
  have hplay : (Session.play (fun _ _ => true) [.node (.create "n" (.element "div") "")]
      World.empty).any (fun w =>
        (Machine.runUnder (fun _ _ => true) Session.depth (.perform (.node (.info "n")))
          { w with log := [] }).isSome &&
        (Session.play (fun _ _ => true) [.event (.dispatch "n" (.fresh "x" none))]
          { w with log := [], document := (w.document.addListener ⟨0⟩ l).2 }).any fun w' =>
            (w'.document.listener? ⟨0⟩ (w.document.addListener ⟨0⟩ l).1).isNone) = true := by
    decide +kernel
  obtain ⟨w, hw, hplay⟩ := (Option.any_eq_true _ _).mp hplay
  obtain ⟨hrun, hplay⟩ := (Bool.and_eq_true _ _).mp hplay
  obtain ⟨w', hw', hgone⟩ := (Option.any_eq_true _ _).mp hplay
  have hv := Session.visited_of_reached (Session.reached_of_play .start hw) hrun
  obtain ⟨before, later, -, hof, hgiven, -, hremoves⟩ := number_removes_own_listener hv ⟨0⟩ l hw'
  have hsound := Roster.sound_none.after (before ++ .listen ⟨0⟩ l :: later)
  have hstands : ¬ (Roster.none.after (before ++ .listen ⟨0⟩ l :: later)).Stands
      (Roster.none.after before).given.length := by
    rw [hsound.stands_iff hgiven]
    rintro ⟨l', hf⟩
    rw [Document.listener?, hof ⟨0⟩, Slots.find?_map, hf] at hgone
    exact absurd hgone (by simp)
  exact ⟨_, w', l, hv, hw', rfl, _, _, hof, hgiven, hstands, fun hlast => (hremoves hlast).2 hstands⟩

end ReactiveViews
