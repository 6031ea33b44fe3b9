import ReactiveViews.Proofs.Dormancy.Unbinding
import ReactiveViews.Proofs.Repeats.InStep
/-!
# Who holds a view

A repeat moves the contexts of its views, and counts on nobody else doing so. Nothing in a view or a
context says whose it is. But there are few ways to get hold of one: by a handle, by the binding that
composed it, and by being the repeat that lists it. Each is a *hand* here. What a repeat holds at some
place is held by no other hand (`World.Sole`): it was made by the repeat, which gave it to nobody.

While a repeat works on its views it has taken them out of its state, and then no hand holds them at
all. They are *free*, and whoever else is at work leaves alone what is free (`World.Leaves`): it can
neither be got hold of, nor can a view be bound or a context be moved. What is not placed, because no
repeat lists it, may be held by others, but it will not be placed by anybody but who made it.
-/

namespace ReactiveViews

/-- **Ward.** What can be got hold of, and then be bound or moved. -/
inductive Ward
  | view (v : ViewId)
  | context (c : ContextId)

/-- A handle to it. -/
def Ward.named : Ward → Handle
  | view v => .view v
  | context c => .context c

/-- **Hand.** What holds wards. -/
inductive Hand
  | handle (name : String)
  /-- A content binding holds the view that it composed. -/
  | composed (b : BehaviorId)
  /-- A repeat holds a view, and the context that the view is bound in, at each place of its list. -/
  | place (b : BehaviorId) (i : Nat)

namespace World

/-- A ward has been made. -/
def Made (w : World) : Ward → Prop
  | .view v => v.index < w.views.size
  | .context c => c.index < w.contexts.size

/-- **Seats.** What is at one place of a list of views: a view, and the context that it is bound in. -/
inductive Seats (states : Store .view ViewState) (views : List ViewId) (i : Nat) : Ward → Prop
  | view {v : ViewId} (h : views[i]? = some v) : Seats states views i (.view v)
  | context {v : ViewId} {c : ContextId} (h : views[i]? = some v)
    (hc : (states.get v).context = some c) : Seats states views i (.context c)

/-- **Holding.** -/
inductive Has (w : World) : Hand → Ward → Prop
  | named {name : String} {t : Ward} (h : w.handles.find? name = some t.named) :
    Has w (.handle name) t
  | composed {b : BehaviorId} {c : Composed} (h : (w.tether b).composed = some c) :
    Has w (.composed b) (.view c.view)
  | placed {b : BehaviorId} {i : Nat} {t : Ward} (h : Seats w.views (w.tether b).views i t) :
    Has w (.place b i) t

/-- **Free.** No hand holds a ward. -/
structure Free (w : World) (t : Ward) : Prop where
  made : w.Made t
  unheld (h : Hand) : ¬ w.Has h t

/-- **Unplaced.** No repeat holds a ward. -/
structure Unplaced (w : World) (t : Ward) : Prop where
  made : w.Made t
  unheld (b : BehaviorId) (i : Nat) : ¬ w.Has (.place b i) t

/-- **Sole holders.** What a repeat holds at a place is held by no other hand. -/
structure Sole (w : World) : Prop where
  made {h : Hand} {t : Ward} : w.Has h t → w.Made t
  sole {b : BehaviorId} {i : Nat} {h : Hand} {t : Ward} : w.Has (.place b i) t → w.Has h t →
    h = .place b i

/-- Where a context stands in its list. -/
def position (w : World) (c : ContextId) : Nat × Nat :=
  ((w.contexts.get c).index, (w.contexts.get c).length)

/-- **Leaving things alone**, but for some views, which may be bound to something else. -/
structure LeavesBut (except : ViewId → Prop) (w w' : World) : Prop where
  lasts : w.Lasts (fun _ => false) w'
  contexts : w.contexts.size ≤ w'.contexts.size
  free {t : Ward} : w.Free t → w'.Free t
  unplaced {t : Ward} : w.Unplaced t → w'.Unplaced t
  record {v : ViewId} : w.Free (.view v) → ¬ except v → w'.views.get v = w.views.get v
  position {c : ContextId} : w.Free (.context c) → w'.position c = w.position c

/-- **Leaving things alone.** -/
def Leaves (w w' : World) : Prop := w.LeavesBut (fun _ => False) w'

variable {except : ViewId → Prop} {w w' : World} {b : BehaviorId} {v : ViewId} {t : Ward}

theorem Free.toUnplaced (h : w.Free t) : w.Unplaced t := ⟨h.made, fun _ _ => h.unheld _⟩

/-- What a handle or a content binding holds is unplaced, and not free. -/
theorem Sole.unplaced (hw : w.Sole) {h : Hand} (hh : ∀ b i, h ≠ .place b i) (ht : w.Has h t) :
    w.Unplaced t :=
  ⟨hw.made ht, fun b i hp => hh b i (hw.sole hp ht)⟩

theorem Has.not_free {h : Hand} (ht : w.Has h t) : ¬ w.Free t := fun hf => hf.unheld h ht

theorem Has.not_unplaced {b : BehaviorId} {i : Nat} (ht : w.Has (.place b i) t) :
    ¬ w.Unplaced t :=
  fun hu => hu.unheld b i ht

theorem Seats.congr {states states' : Store .view ViewState} {views views' : List ViewId} {i : Nat}
    (h : Seats states' views' i t) (hv : ∀ v, views'[i]? = some v → views[i]? = some v)
    (hc : ∀ v c, views'[i]? = some v → (states'.get v).context = some c →
      (states.get v).context = some c) : Seats states views i t := by
  cases h with
  | view h => exact .view (hv _ h)
  | context h hs => exact .context (hv _ h) (hc _ _ h hs)

/-- Wards are held as far as handles, behaviors and views tell. -/
theorem Has.congr {h : Hand} (hh : w'.handles = w.handles) (hb : w'.behaviors = w.behaviors)
    (hv : w'.views = w.views) (ht : w'.Has h t) : w.Has h t := by
  have htether : ∀ b, w'.tether b = w.tether b := fun b => by
    rw [tether, tether, behavior, behavior, hb]
  cases ht with
  | named h => exact .named (hh ▸ h)
  | composed h => exact .composed (htether _ ▸ h)
  | @placed b _ _ h =>
    rw [htether b, hv] at h
    exact .placed h

namespace LeavesBut

theorem refl (w : World) : w.LeavesBut except w :=
  ⟨.refl w, Nat.le_refl _, id, id, fun _ _ => rfl, fun _ => rfl⟩

theorem trans {a b c : World} (h : a.LeavesBut except b) (h' : b.LeavesBut except c) :
    a.LeavesBut except c where
  lasts := h.lasts.trans h'.lasts
  contexts := Nat.le_trans h.contexts h'.contexts
  free ht := h'.free (h.free ht)
  unplaced ht := h'.unplaced (h.unplaced ht)
  record hv he := (h'.record (h.free hv) he).trans (h.record hv he)
  position hc := (h'.position (h.free hc)).trans (h.position hc)

/-- Views that are not free need no exception. -/
theorem settle {except' : ViewId → Prop} (h : w.LeavesBut except' w')
    (he : ∀ v, except' v → ¬ except v → ¬ w.Free (.view v)) : w.LeavesBut except w' :=
  { h with record := fun {v} hv hn => h.record hv fun hv' => he v hv' hn hv }

theorem made (h : w.LeavesBut except w') (ht : w.Made t) : w'.Made t := by
  cases t with
  | view v => exact Nat.lt_of_lt_of_le ht h.lasts.size_views
  | context c => exact Nat.lt_of_lt_of_le ht h.contexts

end LeavesBut

/-- Nothing need be excepted. -/
theorem Leaves.but (h : w.Leaves w') : w.LeavesBut except w' := LeavesBut.settle h fun _ h => h.elim

/-- Whoever began at `w₀` may do as he likes with views that were not free then. -/
theorem Leaves.since {w₀ : World} (h₀ : w₀.Leaves w) (h : w.LeavesBut except w')
    (he : ∀ v, except v → ¬ w₀.Free (.view v)) : w₀.Leaves w' :=
  (h₀.but.trans h).settle fun v hv _ => he v hv

/-! ## Steps that let go -/

/-- **Letting go.** Nobody gets hold of anything, and what is there is neither bound nor moved, but for
some views. -/
structure EasesBut (except : ViewId → Prop) (w w' : World) : Prop where
  lasts : w.Lasts (fun _ => false) w'
  contexts : w.contexts.size ≤ w'.contexts.size
  holds {h : Hand} {t : Ward} : w'.Has h t → w.Has h t
  record {v : ViewId} : v.index < w.views.size → ¬ except v → w'.views.get v = w.views.get v
  position {c : ContextId} : c.index < w.contexts.size → w'.position c = w.position c

namespace EasesBut

theorem made (h : w.EasesBut except w') (ht : w.Made t) : w'.Made t := by
  cases t with
  | view v => exact Nat.lt_of_lt_of_le ht h.lasts.size_views
  | context c => exact Nat.lt_of_lt_of_le ht h.contexts

theorem leaves (h : w.EasesBut except w') : w.LeavesBut except w' where
  lasts := h.lasts
  contexts := h.contexts
  free ht := ⟨h.made ht.made, fun _ hh => ht.unheld _ (h.holds hh)⟩
  unplaced ht := ⟨h.made ht.made, fun _ _ hh => ht.unheld _ _ (h.holds hh)⟩
  record hv := h.record hv.made
  position hc := h.position hc.made

theorem sole (h : w.EasesBut except w') (hw : w.Sole) : w'.Sole where
  made ht := h.made (hw.made (h.holds ht))
  sole hp ht := hw.sole (h.holds hp) (h.holds ht)

theorem trans {a b c : World} (h : a.EasesBut except b) (h' : b.EasesBut except c) :
    a.EasesBut except c where
  lasts := h.lasts.trans h'.lasts
  contexts := Nat.le_trans h.contexts h'.contexts
  holds ht := h.holds (h'.holds ht)
  record hv he := (h'.record (Nat.lt_of_lt_of_le hv h.lasts.size_views) he).trans (h.record hv he)
  position hc := (h'.position (Nat.lt_of_lt_of_le hc h.contexts)).trans (h.position hc)

/-- Nothing that matters has changed. -/
theorem of_eq (hh : w'.handles = w.handles) (hb : w'.behaviors = w.behaviors)
    (hv : w'.views = w.views) (hc : w'.contexts = w.contexts) : w.EasesBut except w' where
  lasts := .of_eq hb hv
  contexts := Nat.le_of_eq (congrArg Store.size hc.symm)
  holds := .congr hh hb hv
  record _ _ := by rw [hv]
  position _ := by rw [World.position, World.position, hc]

/-- A behavior changes, and lists nothing that it did not list there. -/
theorem of_alter {f : Behavior → Behavior} (hf : ∀ s, (f s).lasting = s.lasting)
    (hc : ∀ c : Composed, (f (w.behavior b)).tether.composed = some c →
      ∃ c', (w.tether b).composed = some c' ∧ c'.view = c.view)
    (hv : ∀ (i : Nat) (v : ViewId), (f (w.behavior b)).tether.views[i]? = some v →
      (w.tether b).views[i]? = some v) :
    w.EasesBut except (w.alter b f) where
  lasts := .of_modify hf
  contexts := Nat.le_refl _
  record _ _ := rfl
  position _ := rfl
  holds ht := by
    cases ht with
    | named h => exact .named h
    | @composed b' c h =>
      rw [tether_alter] at h
      split at h
      · next he =>
        subst he
        obtain ⟨c', hc', he⟩ := hc c h
        exact he ▸ .composed hc'
      · exact .composed h
    | @placed b' i _ h =>
      rw [tether_alter] at h
      split at h
      · next he =>
        subst he
        exact .placed (h.congr (hv i) fun _ _ _ => id)
      · exact .placed h

/-- A repeat drops its views. -/
theorem of_dropped (w : World) (b : BehaviorId) : w.EasesBut except (w.setViews b []) := by
  have hc : ∀ s : Behavior, (s.onRepeat fun s => { s with views := [] }).tether.composed =
      s.tether.composed := fun s => by cases s <;> rfl
  have hv : ∀ s : Behavior, (s.onRepeat fun s => { s with views := [] }).tether.views = [] :=
    fun s => by cases s <;> rfl
  refine of_alter (f := .onRepeat fun s => { s with views := [] }) (fun s => by cases s <;> rfl)
    (fun c h => ⟨c, hc _ ▸ h, rfl⟩) fun i v h => ?_
  rw [hv] at h
  exact absurd h nofun

/-- A behavior changes, and lists what it listed. -/
theorem of_lists {f : Behavior → Behavior} (hf : ∀ s, (f s).lasting = s.lasting)
    (hl : ∀ s, (f s).tether.lists = s.tether.lists) : w.EasesBut except (w.alter b f) := by
  have hc : ∀ s, (f s).tether.composed = s.tether.composed := fun s => congrArg Prod.fst (hl s)
  have hv : ∀ s, (f s).tether.views = s.tether.views := fun s => congrArg Prod.snd (hl s)
  exact of_alter hf (fun c h => ⟨c, (hc _).symm.trans h, rfl⟩) fun i v h => hv _ ▸ h

/-- Handles are taken away, or given to what is neither a view nor a context. -/
theorem of_handles {handles : Keyed Handle}
    (h : ∀ name x, handles.find? name = some x → w.handles.find? name = some x ∨ x.IsInert) :
    w.EasesBut except { w with handles } where
  lasts := .of_eq rfl rfl
  contexts := Nat.le_refl _
  record _ _ := rfl
  position _ := rfl
  holds {_ t} ht := by
    cases ht with
    | named hn =>
      refine .named ((h _ _ hn).resolve_right ?_)
      cases t <;> exact id
    | composed h => exact .composed h
    | placed h => exact .placed h

/-- Contexts are entered, or something of them changes that is not their position. -/
theorem of_contexts {contexts : Store .context ContextState} (hs : w.contexts.size ≤ contexts.size)
    (hp : ∀ c : ContextId, c.index < w.contexts.size → (contexts.get c).index = (w.contexts.get c).index ∧
      (contexts.get c).length = (w.contexts.get c).length) :
    w.EasesBut except { w with contexts } where
  lasts := .of_eq rfl rfl
  contexts := hs
  holds := .congr rfl rfl rfl
  record _ _ := rfl
  position hc := Prod.ext (hp _ hc).1 (hp _ hc).2

/-- A view is created. -/
theorem of_created (h : Created w w') : w.EasesBut except w' where
  lasts := .of_created h
  contexts := by rw [h.rest]
  record hv _ := h.views.get _ hv
  position _ := by rw [World.position, World.position, h.rest]
  holds ht := by
    have hold : ∀ b, w'.tether b = w.tether b ∨
        (w'.tether b).composed = none ∧ (w'.tether b).views = [] := by
      intro b
      by_cases hb : b.index < w.behaviors.size
      · exact .inl (by rw [tether, tether, behavior, behavior, h.behaviors.get b hb])
      · have hbare := (h.newBehavior b (Nat.not_lt.mp hb)).bare
        rw [tether, ← hbare]
        exact .inr (by cases w'.behavior b <;> exact ⟨rfl, rfl⟩)
    cases ht with
    | named hn =>
      rw [h.rest] at hn
      exact .named hn
    | @composed b c hc =>
      obtain he | ⟨he, -⟩ := hold b
      · exact .composed (he ▸ hc)
      · exact absurd (he.symm.trans hc) (Option.some_ne_none c).symm
    | @placed b i _ hs =>
      obtain he | ⟨-, he⟩ := hold b
      · rw [he] at hs
        refine .placed (hs.congr (fun _ => id) fun v c _ hc => ?_)
        by_cases hlt : v.index < w.views.size
        · exact h.views.get v hlt ▸ hc
        · exact absurd ((h.newView v (Nat.not_lt.mp hlt)).context.symm.trans hc)
            (Option.some_ne_none c).symm
      · rw [he] at hs
        cases hs with
        | view hv | context hv => exact absurd hv (by simp)

theorem of_sweep (w : World) : w.EasesBut except w.sweep := by
  have ha := Alike.of_sweep w
  refine ⟨.of_sweep w, Nat.le_refl _, fun ht => ?_, fun _ _ => rfl, fun _ => rfl⟩
  cases ht with
  | named h => exact .named h
  | composed h => exact .composed (ha.tether _ ▸ h)
  | @placed b _ _ h =>
    rw [ha.tether b] at h
    exact .placed h

theorem of_follow (w : World) (next : FollowUp) : w.EasesBut except (w.follow next) := by
  obtain h | ⟨entries, h⟩ | ⟨pool, h⟩ := w.follow_cases next <;> rw [h] <;>
    exact of_eq rfl rfl rfl rfl

theorem of_queued {Mild : Subject → Prop} {next : FollowUp} (h : Queued Mild w next w') :
    w.EasesBut except w' := by
  cases h <;> exact of_eq rfl rfl rfl rfl

/-- **Every change lets go** that neither binds views nor changes who lists them. -/
theorem of_change {Mild : Subject → Prop} (hv : ∀ v, ¬ Mild (.view v)) (hl : ∀ b, ¬ Mild (.lists b))
    (h : Change Mild w w') : w.EasesBut except w' := by
  cases h with
  | created h => exact of_created h
  | behavior hf ht _ =>
    refine of_lists (fun s => Behavior.lasting_of_bare (hf s)) fun s => ?_
    obtain ht | ⟨-, ht⟩ := ht
    · rw [ht]
    · exact ht.resolve_right (hl _) s
  | @giveObserver b o _ _ =>
    exact of_lists (f := .onBinding fun s => { s with observer := some o })
      (fun s => by cases s <;> rfl) fun s => by cases s <;> rfl
  | view _ _ hm => exact absurd hm (hv _)
  | newContext s _ =>
    exact of_contexts (Store.Grown.add w.contexts s).size fun c hc => by
      rw [(Store.Grown.add w.contexts s).get c hc]
      exact ⟨rfl, rfl⟩
  | contextNotifier c n _ =>
    refine of_contexts (Store.size_le_modify _ _ _) fun c' _ => ?_
    rw [Store.get_modify]
    split
    · next he => exact he ▸ ⟨rfl, rfl⟩
    · exact ⟨rfl, rfl⟩
  | sweep => exact of_sweep w
  | ask scheduler => exact of_follow w (.schedule scheduler)
  | queued h => exact (of_queued h).trans (of_follow _ _)
  | request =>
    exact (of_eq rfl rfl rfl rfl : w.EasesBut except { w with queue := w.queue.requestIfNeeded.1 }).trans
      (of_follow _ _)
  | drop name =>
    refine of_handles fun other x hx => ?_
    rw [Keyed.find?_erase] at hx
    split at hx
    · exact absurd hx nofun
    · exact .inl hx
  | _ => exact of_eq rfl rfl rfl rfl

theorem of_setup (h : Setup w w') : w.EasesBut except w' := by
  cases h with
  | give name hi =>
    refine of_handles fun other x hx => ?_
    rw [Keyed.find?_put] at hx
    split at hx
    · exact .inr (Option.some.inj hx ▸ hi)
    · exact .inl hx
  | _ => exact of_eq rfl rfl rfl rfl

theorem of_write (h : Write w w') : w.EasesBut except w' := by
  cases h <;> exact of_eq rfl rfl rfl rfl

theorem of_adjustment (h : Adjustment w w') : w.EasesBut except w' := by
  cases h with
  | @await _ queue _ _ =>
    exact (of_eq rfl rfl rfl rfl : w.EasesBut except { w with queue }).trans (of_follow _ _)
  | install | mode | pool => exact of_eq rfl rfl rfl rfl

/-- A view is bound to something else: if a repeat lists it, it is unbound. -/
theorem of_rebound (source : Option Value) {context : Option ContextId}
    (h : context = none ∨ w.Unplaced (.view v)) : w.EasesBut (· = v) (w.rebound v source context) where
  lasts := .of_view rfl
  contexts := Nat.le_refl _
  record {u} _ hu := by
    rw [rebound, Store.get_modify, if_neg (Ne.symm hu)]
  position _ := rfl
  holds ht := by
    cases ht with
    | named h => exact .named h
    | composed h => exact .composed h
    | @placed b i _ hs =>
      refine .placed (hs.congr (fun _ => id) fun u c hu hc => ?_)
      rw [rebound, Store.get_modify] at hc
      split at hc
      · next he =>
        subst he
        obtain rfl | hn := h
        · exact absurd hc (Option.some_ne_none c).symm
        · exact absurd (.placed (.view hu)) (hn.unheld b i)
      · exact hc

end EasesBut

/-! ## Getting hold -/

/-- **In hand.** Somebody who began at `w₀` has come by a ward that is not placed, which others could
not have counted on. -/
structure InHand (w₀ w : World) (t : Ward) : Prop where
  leaves : w₀.Leaves w
  sole : w.Sole
  unplaced : w.Unplaced t
  foreign : ¬ w₀.Free t

namespace InHand

variable {w₀ : World}

theorem later (h : InHand w₀ w t) (hr : w.Leaves w') (hw : w'.Sole) : InHand w₀ w' t :=
  ⟨LeavesBut.trans h.leaves hr, hw, hr.unplaced h.unplaced, h.foreign⟩

/-- What a handle or a content binding holds is in hand. -/
theorem of_has (hw : w.Sole) {h : Hand} (hh : ∀ b i, h ≠ .place b i) (ht : w.Has h t) :
    InHand w w t :=
  ⟨.refl w, hw, hw.unplaced hh ht, ht.not_free⟩

/-- What has been made since is in hand. -/
theorem of_new (h : w₀.Leaves w) (hw : w.Sole) (he : w.EasesBut (fun _ => False) w') (hn : ¬ w.Made t)
    (hm : w'.Made t) : InHand w₀ w' t :=
  ⟨h.trans he.leaves, he.sole hw, ⟨hm, fun _ _ ht => hn (hw.made (he.holds ht))⟩,
    fun hf => hn (h.made hf.made)⟩

/-- A view in hand may be bound. -/
theorem bound (h : InHand w₀ w (.view v)) (hr : w.LeavesBut (· = v) w') (hw : w'.Sole) :
    InHand w₀ w' (.view v) :=
  ⟨h.leaves.since hr fun _ hu => hu ▸ h.foreign, hw, hr.unplaced h.unplaced, h.foreign⟩

/-- One more hand that is not a place may take hold of it. -/
theorem grasp (h : InHand w₀ w t) (hl : w.Lasts (fun _ => false) w') (hv : w'.views = w.views)
    (hc : w'.contexts = w.contexts)
    (hh : ∀ {g u}, w'.Has g u → w.Has g u ∨ u = t ∧ ∀ b i, g ≠ .place b i) :
    InHand w₀ w' t := by
  have hmade : ∀ {u}, w.Made u → w'.Made u := by
    intro u hu
    cases u with
    | view v => exact Nat.lt_of_lt_of_le hu hl.size_views
    | context c => exact Nat.lt_of_lt_of_le hu (Nat.le_of_eq (congrArg Store.size hc.symm))
  have hplace : ∀ {b i u}, w'.Has (.place b i) u → w.Has (.place b i) u :=
    fun hp => (hh hp).resolve_right fun hn => hn.2 _ _ rfl
  have hleaves : w₀.Leaves w' :=
    { lasts := h.leaves.lasts.trans hl
      contexts := hc ▸ h.leaves.contexts
      free := fun {u} hu => by
        have hf := h.leaves.free hu
        refine ⟨hmade hf.made, fun g hg => ?_⟩
        obtain hg | ⟨rfl, -⟩ := hh hg
        · exact hf.unheld g hg
        · exact h.foreign hu
      unplaced := fun hu =>
        have hp := h.leaves.unplaced hu
        ⟨hmade hp.made, fun _ _ hg => hp.unheld _ _ (hplace hg)⟩
      record := fun hu he => hv ▸ h.leaves.record hu he
      position := fun {c} hu => by
        rw [← h.leaves.position hu, World.position, World.position, hc] }
  refine ⟨hleaves, ⟨fun {g u} hg => ?_, fun {b i g u} hp hg => ?_⟩,
    ⟨hmade h.unplaced.made, fun b i hp => h.unplaced.unheld b i (hplace hp)⟩, h.foreign⟩
  · obtain hg | ⟨rfl, -⟩ := hh hg
    · exact hmade (h.sole.made hg)
    · exact hmade h.unplaced.made
  · obtain hg | ⟨rfl, -⟩ := hh hg
    · exact h.sole.sole (hplace hp) hg
    · exact absurd (hplace hp) (h.unplaced.unheld b i)

/-- It may be given a handle. -/
theorem named (h : InHand w₀ w t) (name : String) :
    InHand w₀ { w with handles := w.handles.put name t.named } t := by
  refine h.grasp (.of_eq rfl rfl) rfl rfl fun {g u} hg => ?_
  cases hg with
  | named hn =>
    rw [Keyed.find?_put] at hn
    split at hn
    · refine .inr ⟨?_, fun _ _ => Hand.noConfusion⟩
      have he := Option.some.inj hn
      cases t <;> cases u <;> simp_all [Ward.named]
    · exact .inl (.named hn)
  | composed hc => exact .inl (.composed hc)
  | placed hs => exact .inl (.placed hs)

/-- A content binding may remember it. -/
theorem remembered {c : Composed} (h : InHand w₀ w (.view c.view)) (b : BehaviorId) :
    InHand w₀ (w.alter b (.onBinding fun s => { s with composed := some c })) (.view c.view) := by
  refine h.grasp (.of_modify fun s => by cases s <;> rfl) rfl rfl fun {g u} hg => ?_
  have hviews : ∀ s : Behavior, (s.onBinding fun s => { s with composed := some c }).tether.views =
      s.tether.views := fun s => by cases s <;> rfl
  cases hg with
  | named hn => exact .inl (.named hn)
  | @composed b' c' hc =>
    rw [tether_alter] at hc
    split at hc
    · next he =>
      subst he
      cases hb : w.behavior b with
      | binding s =>
        rw [hb] at hc
        exact .inr ⟨by rw [← Option.some.inj hc], fun _ _ => Hand.noConfusion⟩
      | handler | repeated | probe =>
        rw [hb] at hc
        exact absurd hc nofun
    · exact .inl (.composed hc)
  | @placed b' i _ hs =>
    rw [tether_alter] at hs
    split at hs
    · next he =>
      subst he
      rw [hviews] at hs
      exact .inl (.placed hs)
    · exact .inl (.placed hs)

end InHand

/-! ## Moving -/

theorem position_place (w : World) (c c' : ContextId) (index length : Nat) :
    (w.place c index length).position c' = if c = c' then (index, length) else w.position c' := by
  rw [World.position, place, Store.get_modify]
  split <;> rfl

/-! Nobody gets hold of anything by moving a context. -/

theorem Made.place (ht : w.Made t) (c : ContextId) (index length : Nat) :
    (w.place c index length).Made t := by
  cases t with
  | view v => exact ht
  | context d => exact Nat.lt_of_lt_of_le ht (Store.size_le_modify _ _ _)

theorem Has.of_place {h : Hand} {c : ContextId} {index length : Nat}
    (ht : (w.place c index length).Has h t) : w.Has h t := by
  refine Has.congr ?_ ?_ ?_ ht <;> rfl

theorem Free.place (ht : w.Free t) (c : ContextId) (index length : Nat) :
    (w.place c index length).Free t :=
  ⟨ht.made.place c index length, fun h hh => ht.unheld h hh.of_place⟩

theorem Unplaced.place (ht : w.Unplaced t) (c : ContextId) (index length : Nat) :
    (w.place c index length).Unplaced t :=
  ⟨ht.made.place c index length, fun b i hh => ht.unheld b i hh.of_place⟩

theorem Sole.place (hw : w.Sole) (c : ContextId) (index length : Nat) : (w.place c index length).Sole where
  made ht := (hw.made ht.of_place).place c index length
  sole hp ht := hw.sole hp.of_place ht.of_place

/-- Whoever began at `w₀` may move a context that was not free then. -/
theorem Leaves.place {w₀ : World} (h : w₀.Leaves w) {c : ContextId} (hc : ¬ w₀.Free (.context c))
    (index length : Nat) : w₀.Leaves (w.place c index length) where
  lasts := h.lasts.trans (.of_eq rfl rfl)
  contexts := Nat.le_trans h.contexts (Store.size_le_modify _ _ _)
  free ht := (h.free ht).place c index length
  unplaced ht := (h.unplaced ht).place c index length
  record := h.record
  position {d} hd := by
    have hne : c ≠ d := by
      rintro rfl
      exact hc hd
    rw [position_place, if_neg hne, h.position hd]

/-- In the empty world nobody holds anything. -/
theorem sole_empty : World.empty.Sole := by
  have hn : ∀ h t, ¬ World.empty.Has h t := by
    intro h t ht
    cases ht with
    | named h => exact absurd h nofun
    | composed h => exact absurd h nofun
    | placed h =>
      cases h with
      | view h | context h => exact absurd h nofun
  exact ⟨fun ht => absurd ht (hn _ _), fun ht => absurd ht (hn _ _)⟩

end World

end ReactiveViews
