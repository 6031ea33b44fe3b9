import ReactiveViews.Proofs.Positions.Holding
/-!
# One's own views

Whoever works on views that nobody holds has them for his own (`World.Own`): a repeat, from when it takes
its views out of its state until it puts them back. Of the contexts that they are bound in none serves two
of them, and a context that is made for one of them is spare until then (`World.Spare`). What others do
meanwhile leaves own views alone.
-/

namespace ReactiveViews

namespace World

variable {except : ViewId → Prop} {w w' : World} {b : BehaviorId} {v : ViewId} {t : Ward}

/-- **Alone.** A view is left as it is, and its context where it is. -/
structure Alone (w w' : World) (v : ViewId) : Prop where
  record : w'.views.get v = w.views.get v
  position {c : ContextId} : (w.views.get v).context = some c → w'.position c = w.position c

namespace Alone

theorem refl (w : World) (v : ViewId) : w.Alone w v := ⟨rfl, fun _ => rfl⟩

theorem trans {a b c : World} (h : a.Alone b v) (h' : b.Alone c v) : a.Alone c v :=
  ⟨h'.record.trans h.record,
    fun hc => (h'.position (h.record ▸ hc)).trans (h.position hc)⟩

end Alone

/-- **Own views.** Whoever began at `w₀` has some views in hand that are nobody else's, and neither are
the contexts that they are bound in. -/
structure Own (w₀ w : World) (views : List ViewId) : Prop where
  leaves : w₀.Leaves w
  sole : w.Sole
  nodup : views.Nodup
  free {v : ViewId} : v ∈ views → w.Free (.view v)
  foreign {v : ViewId} : v ∈ views → ¬ w₀.Unplaced (.view v)
  freeSeat {v : ViewId} {c : ContextId} : v ∈ views → (w.views.get v).context = some c →
    w.Free (.context c)
  foreignSeat {v : ViewId} {c : ContextId} : v ∈ views → (w.views.get v).context = some c →
    ¬ w₀.Unplaced (.context c)
  apart {u v : ViewId} {c : ContextId} : u ∈ views → v ∈ views → (w.views.get u).context = some c →
    (w.views.get v).context = some c → u = v

/-- **Spare.** A context that has been made for one of these views. -/
structure Spare (w₀ w : World) (views : List ViewId) (c : ContextId) : Prop where
  free : w.Free (.context c)
  new : ¬ w₀.Made (.context c)
  vacant {v : ViewId} : v ∈ views → (w.views.get v).context ≠ some c

namespace Own

variable {w₀ : World} {views views' : List ViewId} {c : ContextId}

theorem nil (h : w₀.Leaves w) (hw : w.Sole) : Own w₀ w [] :=
  ⟨h, hw, .nil, nofun, nofun, nofun, nofun, nofun⟩

theorem not_free (h : Own w₀ w views) (hv : v ∈ views) : ¬ w₀.Free (.view v) :=
  fun hf => h.foreign hv hf.toUnplaced

theorem fewer (h : Own w₀ w views) (hn : views'.Nodup) (hs : ∀ v ∈ views', v ∈ views) :
    Own w₀ w views' where
  leaves := h.leaves
  sole := h.sole
  nodup := hn
  free hv := h.free (hs _ hv)
  foreign hv := h.foreign (hs _ hv)
  freeSeat hv := h.freeSeat (hs _ hv)
  foreignSeat hv := h.foreignSeat (hs _ hv)
  apart hu hv := h.apart (hs _ hu) (hs _ hv)

theorem sublist (h : Own w₀ w views) (hs : views'.Sublist views) : Own w₀ w views' :=
  h.fewer (hs.nodup h.nodup) fun _ hv => hs.subset hv

theorem perm (h : Own w₀ w views) (hp : views'.Perm views) : Own w₀ w views' :=
  h.fewer (hp.nodup_iff.mpr h.nodup) fun _ hv => hp.subset hv

/-- Others leave own views alone. -/
theorem alone (h : Own w₀ w views) (hr : w.LeavesBut except w') (hv : v ∈ views) (he : ¬ except v) :
    w.Alone w' v :=
  ⟨hr.record (h.free hv) he, fun hc => hr.position (h.freeSeat hv hc)⟩

theorem later (h : Own w₀ w views) (hr : w.Leaves w') (hw : w'.Sole) : Own w₀ w' views := by
  have hrecord : ∀ {v}, v ∈ views → w'.views.get v = w.views.get v :=
    fun hv => (h.alone hr hv id).record
  refine ⟨LeavesBut.trans h.leaves hr, hw, h.nodup, fun hv => hr.free (h.free hv), h.foreign,
    fun hv hc => hr.free (h.freeSeat hv (hrecord hv ▸ hc)),
    fun hv hc => h.foreignSeat hv (hrecord hv ▸ hc),
    fun hu hv hcu hcv => h.apart hu hv (hrecord hu ▸ hcu) (hrecord hv ▸ hcv)⟩

/-- What is held on to meanwhile does not matter. -/
theorem held (h : Own w₀ w views) (held : List Held) : Own w₀ { w with held } views := by
  have he : w.EasesBut (fun _ => False) { w with held } := .of_eq rfl rfl rfl rfl
  exact h.later he.leaves (he.sole h.sole)

/-- One of the views is bound in a spare context, or not any more. -/
theorem bound (h : Own w₀ w views) (hv : v ∈ views) (hr : w.LeavesBut (· = v) w') (hw : w'.Sole)
    (hc : ∀ c, (w'.views.get v).context = some c →
      (w.views.get v).context = some c ∨ Spare w₀ w views c) : Own w₀ w' views := by
  -- the context of a view is what it was, or spare
  have hseat : ∀ {u c}, u ∈ views → (w'.views.get u).context = some c →
      (w.views.get u).context = some c ∨ u = v ∧ Spare w₀ w views c := by
    intro u c hu hs
    by_cases he : u = v
    · subst he
      exact (hc c hs).imp_right fun h => ⟨rfl, h⟩
    · exact .inl ((h.alone hr hu he).record ▸ hs)
  refine ⟨h.leaves.since hr fun u hu => hu ▸ h.not_free hv, hw, h.nodup, fun hu => hr.free (h.free hu),
    h.foreign, fun hu hs => ?_, fun hu hs => ?_, fun {u x c} hu hx hsu hsx => ?_⟩
  · obtain hs | ⟨-, hs⟩ := hseat hu hs
    · exact hr.free (h.freeSeat hu hs)
    · exact hr.free hs.free
  · obtain hs | ⟨-, hs⟩ := hseat hu hs
    · exact h.foreignSeat hu hs
    · exact fun hp => hs.new hp.made
  · obtain hsu | ⟨rfl, hs⟩ := hseat hu hsu
    · obtain hsx | ⟨rfl, hs⟩ := hseat hx hsx
      · exact h.apart hu hx hsu hsx
      · exact absurd hsu (hs.vacant hu)
    · obtain hsx | ⟨rfl, -⟩ := hseat hx hsx
      · exact absurd hsx (hs.vacant hx)
      · rfl

/-- The context of one of the views is moved, and those of the others are not. -/
theorem moved (h : Own w₀ w views) (hv : v ∈ views) (hc : (w.views.get v).context = some c)
    (index length : Nat) : Own w₀ (w.place c index length) views :=
  ⟨h.leaves.place (fun hf => h.foreignSeat hv hc hf.toUnplaced) index length,
    h.sole.place c index length, h.nodup, fun hu => (h.free hu).place c index length, h.foreign,
    fun hu hs => (h.freeSeat hu hs).place c index length, h.foreignSeat, h.apart⟩

theorem alone_moved (h : Own w₀ w views) {u : ViewId} (hv : v ∈ views)
    (hc : (w.views.get v).context = some c) (hu : u ∈ views) (hne : u ≠ v) (index length : Nat) :
    w.Alone (w.place c index length) u := by
  refine ⟨rfl, fun {d} hd => ?_⟩
  rw [position_place, if_neg]
  rintro rfl
  exact hne (h.apart hu hv hd hc)

/-- A view that is made is one more. -/
theorem created (h : Own w₀ w views) (hw : Created w w') (hv : w.views.size ≤ v.index)
    (hm : v.index < w'.views.size) : Own w₀ w' (v :: views) := by
  have he : w.EasesBut (fun _ => False) w' := .of_created hw
  have hl := h.later he.leaves (he.sole h.sole)
  have hnew : ¬ w.Made (.view v) := Nat.not_lt.mpr hv
  have hnone : ∀ {c}, (w'.views.get v).context ≠ some c := by
    rw [(hw.newView v hv).context]
    exact nofun
  refine ⟨hl.leaves, hl.sole, ?_, ?_, ?_, ?_, ?_, ?_⟩
  · exact List.nodup_cons.mpr ⟨fun hmem => hnew (h.free hmem).made, h.nodup⟩
  · rintro u hu
    obtain rfl | hu := List.mem_cons.mp hu
    · exact ⟨hm, fun _ hh => hnew (h.sole.made (he.holds hh))⟩
    · exact hl.free hu
  · rintro u hu
    obtain rfl | hu := List.mem_cons.mp hu
    · exact fun hp => hnew (h.leaves.made hp.made)
    · exact hl.foreign hu
  · rintro u c hu hc
    obtain rfl | hu := List.mem_cons.mp hu
    · exact absurd hc hnone
    · exact hl.freeSeat hu hc
  · rintro u c hu hc
    obtain rfl | hu := List.mem_cons.mp hu
    · exact absurd hc hnone
    · exact hl.foreignSeat hu hc
  · rintro u x c hu hx hcu hcx
    obtain rfl | hu := List.mem_cons.mp hu
    · exact absurd hcu hnone
    · obtain rfl | hx := List.mem_cons.mp hx
      · exact absurd hcx hnone
      · exact hl.apart hu hx hcu hcx

/-- At a place of the list are its view, and the context of the view. -/
theorem seated (h : Own w₀ w views) {i : Nat} (ht : Seats w.views views i t) :
    w.Free t ∧ ¬ w₀.Unplaced t := by
  cases ht with
  | view hv =>
    have hmem := List.mem_of_getElem? hv
    exact ⟨h.free hmem, h.foreign hmem⟩
  | context hv hc =>
    have hmem := List.mem_of_getElem? hv
    exact ⟨h.freeSeat hmem hc, h.foreignSeat hmem hc⟩

/-- Nothing is at two places of the list. -/
theorem seats_inj (h : Own w₀ w views) {i j : Nat} (hi : Seats w.views views i t) (hj : Seats w.views views j t) :
    i = j := by
  have heq : ∀ {v}, views[i]? = some v → views[j]? = some v → i = j := by
    intro v hi hj
    obtain ⟨hlt, -⟩ := List.getElem?_eq_some_iff.mp hi
    exact (List.getElem?_inj hlt h.nodup).mp (hi.trans hj.symm)
  cases hi with
  | view hi =>
    cases hj with
    | view hj => exact heq hi hj
  | context hi hci =>
    cases hj with
    | context hj hcj =>
      obtain rfl := h.apart (List.mem_of_getElem? hi) (List.mem_of_getElem? hj) hci hcj
      exact heq hi hj

/-- **Taking out.** The views that a repeat takes out of its state are its own. -/
theorem taken (hw : w.Sole) {s : RepeatState} (hs : w.repeatState? b = some s) :
    Own w (w.setViews b []) s.views := by
  have hviews : (w.tether b).views = s.views := by
    rw [tether, behavior_of_repeatState? hs]
    rfl
  have hnone : ((w.setViews b []).tether b).views = [] := by
    rw [tether, behavior_of_repeatState? (repeatState?_setViews hs [])]
    rfl
  have he : w.EasesBut (fun _ => False) (w.setViews b []) := .of_dropped w b
  have hplaced : ∀ {i t}, Seats w.views s.views i t → w.Has (.place b i) t := fun h =>
    .placed (hviews ▸ h)
  -- what was at a place was held by nobody else, and is now held by nobody
  have hfree : ∀ {i t}, Seats w.views s.views i t → (w.setViews b []).Free t := by
    intro i t ht
    refine ⟨he.made (hw.made (hplaced ht)), fun h hh => ?_⟩
    obtain rfl := hw.sole (hplaced ht) (he.holds hh)
    cases hh with
    | placed hh =>
      rw [hnone] at hh
      cases hh with
      | view hv | context hv => exact absurd hv (by simp)
  have hseat : ∀ {v}, v ∈ s.views → ∃ i, s.views[i]? = some v := List.getElem?_of_mem
  have hsame : ∀ {i j t}, Seats w.views s.views i t → Seats w.views s.views j t → i = j := fun hi hj => by
    have hp := hw.sole (hplaced hi) (hplaced hj)
    exact (Hand.place.inj hp).2.symm
  refine ⟨he.leaves, he.sole hw, ?_, fun hv => ?_, fun hv => ?_, fun hv hc => ?_, fun hv hc => ?_,
    fun {u v c} hu hv hcu hcv => ?_⟩
  · refine List.nodup_iff_getElem?_ne_getElem?.mpr fun i j hij hj heq => ?_
    have hj' := List.getElem?_eq_getElem hj
    exact absurd (hsame (.view (heq.trans hj')) (.view hj')) (Nat.ne_of_lt hij)
  · obtain ⟨i, hi⟩ := hseat hv
    exact hfree (.view hi)
  · obtain ⟨i, hi⟩ := hseat hv
    exact (hplaced (.view hi)).not_unplaced
  · obtain ⟨i, hi⟩ := hseat hv
    exact hfree (.context hi hc)
  · obtain ⟨i, hi⟩ := hseat hv
    exact (hplaced (.context hi hc)).not_unplaced
  · obtain ⟨i, hi⟩ := hseat hu
    obtain ⟨j, hj⟩ := hseat hv
    obtain rfl := hsame (.context hi hcu) (.context hj hcv)
    exact Option.some.inj (hi.symm.trans hj)

/-- **Putting back.** A repeat may have one's own views. -/
theorem put (h : Own w₀ w views) (b : BehaviorId) :
    w₀.Leaves (w.setViews b views) ∧ (w.setViews b views).Sole := by
  have htether : ∀ b', (w.setViews b views).tether b' = if b = b' then
      ((w.behavior b).onRepeat fun s => { s with views }).tether else w.tether b' :=
    tether_alter w b (.onRepeat fun s => { s with views })
  have hcomposed : ∀ s : Behavior, (s.onRepeat fun s => { s with views }).tether.composed =
      s.tether.composed := fun s => by cases s <;> rfl
  have hviews : ∀ s : Behavior, (s.onRepeat fun s => { s with views }).tether.views = views ∨
      (s.onRepeat fun s => { s with views }).tether.views = s.tether.views := fun s => by
    cases s with
    | repeated => exact .inl rfl
    | binding | handler | probe => exact .inr rfl
  have hholds : ∀ {g t}, (w.setViews b views).Has g t →
      w.Has g t ∨ ∃ i, g = .place b i ∧ Seats w.views views i t := by
    intro g t hg
    cases hg with
    | named hn => exact .inl (.named hn)
    | @composed b' c hc =>
      rw [htether] at hc
      split at hc
      · next he =>
        subst he
        exact .inl (.composed (hcomposed _ ▸ hc))
      · exact .inl (.composed hc)
    | @placed b' i _ hs =>
      rw [htether] at hs
      split at hs
      · next he =>
        subst he
        obtain he | he := hviews (w.behavior b)
        · rw [he] at hs
          exact .inr ⟨i, rfl, hs⟩
        · rw [he] at hs
          exact .inl (.placed hs)
      · exact .inl (.placed hs)
  have hplace : ∀ {i t u}, Seats w.views views i t → ¬ w.Has u t := fun ht hu =>
    (h.seated ht).1.unheld _ hu
  have hmade : ∀ {t}, w.Made t → (w.setViews b views).Made t := by
    intro t ht
    cases t <;> exact ht
  refine ⟨?_, fun {g t} hg => ?_, fun {b' i g t} hp hg => ?_⟩
  · refine ⟨h.leaves.lasts.trans (.of_modify (f := .onRepeat fun s => { s with views }) fun s => by
      cases s <;> rfl), h.leaves.contexts,
      fun {t} ht => ?_, fun {t} ht => ?_, h.leaves.record, h.leaves.position⟩
    · have hf := h.leaves.free ht
      refine ⟨hmade hf.made, fun g hg => ?_⟩
      obtain hg | ⟨i, rfl, hs⟩ := hholds hg
      · exact hf.unheld g hg
      · exact (h.seated hs).2 ht.toUnplaced
    · have hu := h.leaves.unplaced ht
      refine ⟨hmade hu.made, fun b' i hg => ?_⟩
      obtain hg | ⟨j, -, hs⟩ := hholds hg
      · exact hu.unheld b' i hg
      · exact (h.seated hs).2 ht
  · obtain hg | ⟨i, -, hs⟩ := hholds hg
    · exact hmade (h.sole.made hg)
    · exact hmade (h.seated hs).1.made
  · obtain hp | ⟨j, hj, hsp⟩ := hholds hp
    · obtain hg | ⟨k, rfl, hsg⟩ := hholds hg
      · exact h.sole.sole hp hg
      · exact absurd hp (hplace hsg)
    · obtain hg | ⟨k, rfl, hsg⟩ := hholds hg
      · exact absurd hg (hplace hsp)
      · rw [hj, h.seats_inj hsp hsg]

end Own

/-! ## Attending to views -/

/-- **Resting.** The context of a view is where it was at first, if it was there at first. -/
def Resting (w₀ w : World) (v : ViewId) : Prop :=
  ∀ c, (w.views.get v).context = some c → w₀.Made (.context c) → w.position c = w₀.position c

/-- **Attending.** One of one's own views is attended to, and the others are left alone. -/
structure Attends (w₀ w : World) (views : List ViewId) (v : ViewId) (w' : World) : Prop where
  own : Own w₀ w' views
  others {u : ViewId} : u ∈ views → u ≠ v → w.Alone w' u

/-- **Stock.** Own views of which no context has been moved. -/
structure Stock (w₀ w : World) (views : List ViewId) : Prop extends Own w₀ w views where
  resting {v : ViewId} : v ∈ views → w₀.Resting w v

section Attending

variable {w₀ : World} {views views' : List ViewId} {c : ContextId}

theorem Resting.alone (h : w₀.Resting w v) (ha : w.Alone w' v) : w₀.Resting w' v := by
  intro c hc hm
  rw [ha.record] at hc
  exact (ha.position hc).trans (h c hc hm)

/-- Others tend to nothing. -/
theorem Own.attends (h : Own w₀ w views) (hr : w.Leaves w') (hw : w'.Sole) (v : ViewId) :
    Attends w₀ w views v w' :=
  ⟨h.later hr hw, fun hu _ => h.alone hr hu id⟩

theorem Attends.trans {w₁ : World} (h : Attends w₀ w views v w₁) (h' : Attends w₀ w₁ views v w') :
    Attends w₀ w views v w' :=
  ⟨h'.own, fun hu hn => (h.others hu hn).trans (h'.others hu hn)⟩

theorem Spare.later (h : Spare w₀ w views c) (hr : w.LeavesBut except w')
    (hs : ∀ u ∈ views, (w'.views.get u).context = some c → (w.views.get u).context = some c) :
    Spare w₀ w' views c :=
  ⟨hr.free h.free, h.new, fun hu hc => h.vacant hu (hs _ hu hc)⟩

namespace Stock

theorem perm (h : Stock w₀ w views) (hp : views'.Perm views) : Stock w₀ w views' :=
  ⟨h.toOwn.perm hp, fun hv => h.resting (hp.subset hv)⟩

theorem sublist (h : Stock w₀ w views) (hs : views'.Sublist views) : Stock w₀ w views' :=
  ⟨h.toOwn.sublist hs, fun hv => h.resting (hs.subset hv)⟩

theorem later (h : Stock w₀ w views) (hr : w.Leaves w') (hw : w'.Sole) : Stock w₀ w' views :=
  ⟨h.toOwn.later hr hw, fun hv => (h.resting hv).alone (h.alone hr hv id)⟩

theorem attended (h : Stock w₀ w views) (ht : Attends w₀ w views v w') (hv : w₀.Resting w' v) :
    Stock w₀ w' views := by
  refine ⟨ht.own, fun {u} hu => ?_⟩
  by_cases he : u = v
  · exact he ▸ hv
  · exact (h.resting hu).alone (ht.others hu he)

theorem held (h : Stock w₀ w views) (held : List Held) : Stock w₀ { w with held } views :=
  ⟨h.toOwn.held held, h.resting⟩

/-- The views that a repeat takes out of its state are resting. -/
theorem taken (hw : w.Sole) {s : RepeatState} (hs : w.repeatState? b = some s) :
    Stock w (w.setViews b []) s.views :=
  ⟨.taken hw hs, fun _ _ _ _ => rfl⟩

end Stock

end Attending

end World

end ReactiveViews
