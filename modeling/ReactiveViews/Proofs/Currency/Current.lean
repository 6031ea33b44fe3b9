import ReactiveViews.Proofs.Currency.Binding
import ReactiveViews.Proofs.Ranges.Enclosure
/-!
# Synchronous bindings are current

Behaviors are bound, one after another, and properties are written; callbacks and subscribers may write
properties as well while they are told of a write. Whenever a write has come to its end, every binding
that is attached shows the value that its expression has then (`bindings_are_current`).

Bindings of one node that write to the same slot cannot all be current, and no promise is made of them:
of two bindings of one attribute the one that was refreshed last shows (`one_title_hides_the_other`).
-/

namespace ReactiveViews

open Machine

namespace World

/-- **Current.** The target of an attachment shows the value of its expression, which is what evaluating
it comes to. -/
def Current (w : World) (a : Attachment) : Prop :=
  ∃ v, w.Displays a.target a.aspect v ∧ (∃ reads, w.compute? a.env a.formula = some (v, reads)) ∧
    ∀ allowed depth r w', eval a.formula a.env (runUnder allowed depth) w = some (r, w') → r = .ok v

/-- **Leaving alone.** Something else happens: the behavior and the observer of an attachment are as they
were, and so are what it shows and the properties that it depends on. -/
structure LeavesAlone (w : World) (a : Attachment) (w' : World) : Prop extends w.Spares a w' where
  peek : ∀ p, w.HasRecord a.observer p → w'.peek p.1 p.2 = w.peek p.1 p.2
  displays : ∀ v, w.Displays a.target a.aspect v → w'.Displays a.target a.aspect v

/-- **Attached.** What happens to bindings, and the attachments that there are. Behaviors are bound to which
nothing is attached that writes to the same slot; properties are written, with whatever that brings about;
attachments are no longer cared for; and between that happens whatever leaves the attachments alone. -/
inductive Attached : List Attachment → World → Prop
  | start (w : World) : Attached [] w
  | bind {as : List Attachment} {w w' : World} {b : BehaviorId} {s : BindingState} {bound : Bound}
    {v : Value} {reads : List PropertyRead} {depth : Nat} {r : Except Error Unit} {a : Attachment}
    (h : Attached as w) (hw : w.watcher = none) (hb : w.Bindable b s bound v reads)
    (hm : s.binding.mode = .onChange)
    (hap : ∀ a ∈ as, s.aspect.Apart s.target a.target a.aspect)
    (hr : bindBinding b bound.source bound.context (runUnder (admits as) depth) w = some (r, w'))
    (ha : w'.attachment? b = some a) : Attached (a :: as) w'
  | write {as : List Attachment} {w w' : World} {x : ObjectId} {name : String} {v : Value}
    {depth : Nat} {r : Except Error Unit} (h : Attached as w)
    (hr : setProperty x name v (runUnder (admits as) depth) w = some (r, w')) : Attached as w'
  | forget {as as' : List Attachment} {w : World} (h : Attached as w) (hs : as' ⊆ as) : Attached as' w
  | aside {as : List Attachment} {w w' : World} (h : Attached as w)
    (hs : ∀ a ∈ as, w.LeavesAlone a w') : Attached as w'

variable {w w' : World} {a : Attachment} {as : List Attachment}

/-- An attachment to which nothing is pending is current, unless its target has been edited. -/
theorem Tended.current (h : w.Tended [] a) (he : a.edited = none) : w.Current a := by
  obtain ⟨v, shown, reads, hv, hd, haccepts, hrecorded⟩ := h.fresh
  obtain rfl := haccepts.resolve_right (by simp [he])
  refine ⟨shown, hd, ⟨reads, hv⟩, fun allowed depth r w' hr => ?_⟩
  have hgives := runUnder_runsFormulas allowed depth a.formula a.env w
  exact (hgives.gives hv (fun read hm => h.tied.observable (hrecorded read hm)) hr).1

/-- **Attachments are tended all along.** -/
theorem Attached.tended (h : Attached as w) : ∀ a ∈ as, w.Tended [] a ∧ a.edited = none := by
  induction h with
  | start => exact fun a ha => absurd ha List.not_mem_nil
  | @bind as w w' b s bound v reads depth r a _ hw hb hm hap hr ha ih =>
    rw [bindBinding_sources hb.cell hb.unbound (.inl hm), hm] at hr
    obtain ⟨e, hrefresh, -⟩ | ⟨⟨⟩, w₁, hrefresh, hr⟩ := bind_eq_some hr
    · exact absurd (refreshBinding_attaches (runUnder_runsFormulas _ _) hb hw hrefresh).1 (by simp)
    · obtain ⟨rfl, rfl⟩ := Prod.mk.inj (Option.some.inj hr)
      obtain ⟨-, o, hattached, hothers, -⟩ :=
        refreshBinding_attaches (runUnder_runsFormulas _ _) hb hw hrefresh
      obtain rfl := Option.some.inj ((hattached.tied.attachment? rfl).symm.trans ha)
      refine List.forall_mem_cons.mpr ⟨⟨hattached, rfl⟩, fun a ha => ?_⟩
      exact ⟨hothers (ih a ha).1 (hap a ha), (ih a ha).2⟩
  | @write as w w' x name v depth r _ hr ih =>
    intro a ha
    have := runUnder_attends ha depth
    have hwrite : Tends (runUnder (admits as) depth) a (setProperty x name v) := inferInstance
    exact ⟨hwrite.tends (ih a ha).1 hr, (ih a ha).2⟩
  | forget _ hs ih => exact fun a ha => ih a (hs ha)
  | aside _ hs ih =>
    intro a ha
    exact ⟨(ih a ha).1.spared (hs a ha).toSpares (fun p hp _ => (hs a ha).peek p hp) (fun _ => id)
      (hs a ha).displays, (ih a ha).2⟩

end World

/-- **Synchronous bindings are current when a write returns**, however many writes are nested in it and in
whatever order observers are told of them: a write does not fail, and every attachment is then current. -/
theorem bindings_are_current {as : List Attachment} {w w' : World} {x : ObjectId} {name : String}
    {v : Value} {depth : Nat} {r : Except Error Unit} (h : World.Attached as w)
    (hr : setProperty x name v (runUnder (admits as) depth) w = some (r, w')) :
    r = .ok () ∧ ∀ a ∈ as, w'.Current a := by
  have hwrite : Firm (runUnder (admits as) depth) (setProperty x name v) := inferInstance
  obtain ⟨⟨⟩, hok⟩ := hwrite.ok hr
  refine ⟨hok, fun a ha => ?_⟩
  obtain ⟨htended, he⟩ := (h.write hr).tended a ha
  exact htended.current he

/-- Whether a binding is volatile, synchronous and applied on every change. -/
def Binding.followsAtOnce (b : Binding) : Bool :=
  b.isVolatile && b.isSynchronous && match b.mode with
    | .onChange => true
    | _ => false

theorem Binding.mode_of_followsAtOnce {b : Binding} (h : b.followsAtOnce = true) :
    b.mode = .onChange := by
  unfold Binding.followsAtOnce at h
  rw [Bool.and_eq_true] at h
  split at h
  · next hm => exact hm
  · exact absurd h.2 (by simp)

/-- A view of an object with two properties: writing the first one writes the second. -/
def echoingSession : List Command :=
  [.type (.defineProperties "T" ["y"] none),
    .type (.defineProperties "T" ["x"] (some (.set .source "y" .extra))),
    .object (.create "m" (some "T") [("x", .text "a"), ("y", .text "b")]),
    .template (.compile "t" ["<p title=\"", "\"></p>"]
      [.binding ⟨.cat [.get .source "x", .get .source "y"], true, true, .onChange⟩] none),
    .view (.create "v" "t")]

/-- The title is both properties, one of which is written while the other one is. -/
theorem echoed_title_is_current : ∃ w w' a, World.Attached [a] w ∧ w.attachment? ⟨0⟩ = some a ∧
    a.aspect = .attr "title" ∧
    setProperty ⟨0⟩ "x" (.text "c") (runUnder (admits [a]) 20) w = some (.ok (), w') ∧
    w'.document.attribute? a.target "title" = some "cc" ∧ w'.Current a := by
  have hplay : (Session.play (fun _ _ => true) echoingSession World.empty).any (fun w =>
      w.watcher.isNone && w.isBindable ⟨0⟩ ⟨.object ⟨0⟩, ⟨0⟩⟩ &&
      (w.bindingState? ⟨0⟩).any (fun s => s.binding.followsAtOnce) &&
      comesTo (bindBinding ⟨0⟩ (.object ⟨0⟩) ⟨0⟩ (runUnder (admits []) 20) w) fun _ w₁ =>
        (w₁.attachment? ⟨0⟩).any fun a => decide (a.aspect = .attr "title") &&
          comesTo (setProperty ⟨0⟩ "x" (.text "c") (runUnder (admits [a]) 20) w₁) fun _ w₂ =>
            decide (w₂.document.attribute? a.target "title" = some "cc")) = true := by
    decide +kernel
  obtain ⟨w, -, hplay⟩ := (Option.any_eq_true _ _).mp hplay
  simp only [Bool.and_eq_true, Option.isNone_iff_eq_none] at hplay
  obtain ⟨⟨⟨hw, hbindable⟩, hstate⟩, hplay⟩ := hplay
  obtain ⟨s, v, reads, hb⟩ := World.exists_bindable hbindable
  obtain ⟨s', hs', hmode⟩ := (Option.any_eq_true _ _).mp hstate
  obtain rfl : s = s' := by
    rw [World.bindingState?, World.behavior, hb.cell] at hs'
    exact Option.some.inj hs'
  obtain ⟨⟨⟩, w₁, hbind, hplay⟩ := exists_of_comesTo hplay
  obtain ⟨a, ha, hplay⟩ := (Option.any_eq_true _ _).mp hplay
  simp only [Bool.and_eq_true, decide_eq_true_eq] at hplay
  obtain ⟨haspect, hplay⟩ := hplay
  obtain ⟨⟨⟩, w₂, hset, hshown⟩ := exists_of_comesTo hplay
  have hattached := (World.Attached.start w).bind hw hb (Binding.mode_of_followsAtOnce hmode)
    (fun a ha => absurd ha List.not_mem_nil) hbind ha
  refine ⟨w₁, w₂, a, hattached, ha, haspect, hset, of_decide_eq_true hshown, ?_⟩
  exact (bindings_are_current hattached hset).2 a List.mem_cons_self

theorem Value.eq_text_of_same {v : Value} {text : String} (h : v.same (.text text) = true) :
    v = .text text := by
  cases v with
  | text other => rw [of_decide_eq_true h]
  | _ => exact absurd h (by simp [Value.same])

theorem Value.eq_object_of_same {v : Value} {o : ObjectId} (h : v.same (.object o) = true) :
    v = .object o := by
  cases v with
  | object other => rw [of_decide_eq_true h]
  | _ => exact absurd h (by simp [Value.same])

/-- A view with two bindings of one attribute. -/
def twiceTitledSession : List Command :=
  [.type (.defineProperties "T" ["x", "y"] none),
    .object (.create "m" (some "T") [("x", .text "a"), ("y", .text "b")]),
    .template (.compile "t" ["<p title=\"", "\" title=\"", "\"></p>"]
      [.binding ⟨.get .source "x", true, true, .onChange⟩,
        .binding ⟨.get .source "y", true, true, .onChange⟩] none),
    .node (.create "host" (.element "div") ""),
    .view (.render "v" "t" (.handle "m") "host" none)]

/-- The title is what the first one gives when that has been written, and the second one is not current. -/
theorem one_title_hides_the_other : ∃ w w' a,
    Session.play (fun _ _ => true) twiceTitledSession World.empty = some w ∧
    setProperty ⟨0⟩ "x" (.text "c") (run 20) w = some (.ok (), w') ∧
    w'.attachment? ⟨1⟩ = some a ∧ a.state.binding.followsAtOnce = true ∧
    a.formula = .get .source "y" ∧ a.env.source = .object ⟨0⟩ ∧ ¬ w'.Current a := by
  have hplay : (Session.play (fun _ _ => true) twiceTitledSession World.empty).any (fun w =>
      comesTo (setProperty ⟨0⟩ "x" (.text "c") (run 20) w) fun _ w' =>
        (w'.attachment? ⟨1⟩).any fun a => a.state.binding.followsAtOnce &&
          decide (a.aspect = .attr "title") &&
          decide (w'.document.attribute? a.target "title" = some "c") &&
          decide (a.formula.sourceProperty? = some "y") && a.env.source.same (.object ⟨0⟩) &&
          (w'.peek ⟨0⟩ "y").same (.text "b")) = true := by
    decide +kernel
  obtain ⟨w, hw, hplay⟩ := (Option.any_eq_true _ _).mp hplay
  obtain ⟨⟨⟩, w', hset, hplay⟩ := exists_of_comesTo hplay
  obtain ⟨a, ha, hplay⟩ := (Option.any_eq_true _ _).mp hplay
  simp only [Bool.and_eq_true, decide_eq_true_eq] at hplay
  obtain ⟨⟨⟨⟨⟨hfollows, haspect⟩, htitle⟩, hformula⟩, hsource⟩, hvalue⟩ := hplay
  replace hformula := Expr.sourceProperty?_eq_some hformula
  replace hsource := Value.eq_object_of_same hsource
  replace hvalue := Value.eq_text_of_same hvalue
  refine ⟨w, w', a, hw, hset, ha, hfollows, hformula, hsource, ?_⟩
  rintro ⟨v, hshown, ⟨reads, hv⟩, -⟩
  rw [hformula, World.compute?, World.compute?, hsource] at hv
  obtain rfl : w'.peek ⟨0⟩ "y" = v := (Prod.mk.inj (Option.some.inj hv)).1
  rw [hvalue, haspect] at hshown
  replace hshown : _ = some (w'.display (.text "b")) := htitle.symm.trans hshown
  rw [World.display, World.displayTo] at hshown
  exact absurd hshown (by decide)

end ReactiveViews
