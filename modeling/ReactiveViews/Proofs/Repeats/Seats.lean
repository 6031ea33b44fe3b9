import Mathlib
import ReactiveViews.Proofs.Binds
import ReactiveViews.Proofs.History
/-!
# Splices carried out on views

A repeat has no record of which view is for which item. It counts on its list of
views being in step with the list of items: a splice of the items is carried out on the
views at the same index. Here is what that does to a *roll*, which pairs items with
views. As long as no item fails, every splice takes out the entries of the items it takes
out, puts in an entry for each item it puts in, with a view bound to it, and leaves the
other entries alone (`applySplices_leads`).
-/

namespace ReactiveViews

/-- **Roll.** Items in order, each with the view that is for it. -/
abbrev Roll := List (Value × ViewId)

namespace Roll

def items (roll : Roll) : List Value := roll.map Prod.fst

def views (roll : Roll) : List ViewId := roll.map Prod.snd

theorem views_append (a b : Roll) : views (a ++ b) = a.views ++ b.views := List.map_append

theorem views_take (roll : Roll) (n : Nat) : views (roll.take n) = roll.views.take n :=
  List.map_take

theorem views_drop (roll : Roll) (n : Nat) : views (roll.drop n) = roll.views.drop n :=
  List.map_drop

theorem items_append (a b : Roll) : items (a ++ b) = a.items ++ b.items := List.map_append

theorem length_views (roll : Roll) : roll.views.length = roll.length := List.length_map _

theorem length_items (roll : Roll) : roll.items.length = roll.length := List.length_map _

end Roll

namespace Splice

/-- A splice carried out on a roll: as many entries as it removes are taken out at its index, and
others put there. -/
def seat (s : Splice) (added roll : Roll) : Roll :=
  roll.take s.index ++ added ++ roll.drop (s.index + s.removed.length)

theorem items_seat {s : Splice} {added : Roll} (h : added.items = s.added) (roll : Roll) :
    (s.seat added roll).items = s.apply roll.items := by
  simp only [seat, Roll.items, List.map_append, List.map_take, List.map_drop] at h ⊢
  rw [h, apply]

/-- Where the index of a splice lies behind the roll it might as well be the end. -/
theorem seat_clamped (s : Splice) (added roll : Roll) :
    s.seat added roll = roll.take (min s.index roll.length) ++ added ++
      roll.drop (min s.index roll.length + s.removed.length) := by
  unfold seat
  rcases Nat.le_total s.index roll.length with h | h
  · rw [Nat.min_eq_left h]
  · rw [Nat.min_eq_right h, List.take_of_length_le h, List.take_length,
      List.drop_eq_nil_of_le (by omega), List.drop_eq_nil_of_le (by omega)]

/-- The views of a splice carried out on a roll. -/
theorem views_seat (s : Splice) (added roll : Roll) :
    (s.seat added roll).views = roll.views.take (min s.index roll.views.length) ++ added.views ++
      roll.views.drop (min s.index roll.views.length + s.removed.length) := by
  rw [seat_clamped, Roll.views_append, Roll.views_append, Roll.views_take, Roll.views_drop,
    Roll.length_views]

/-- **Seating.** Splices are carried out on a roll in order, with an entry for each item added. -/
inductive Seats : List Splice → Roll → Roll → Prop
  | nil (roll : Roll) : Seats [] roll roll
  | cons {s : Splice} {rest : List Splice} {added roll roll' : Roll} (ha : added.items = s.added)
    (h : Seats rest (s.seat added roll) roll') : Seats (s :: rest) roll roll'

/-- The items of a roll follow. -/
theorem Seats.items {splices : List Splice} {roll roll' : Roll} (h : Seats splices roll roll') :
    roll'.items = replay splices roll.items := by
  induction h with
  | nil => rfl
  | cons ha _ ih => rw [ih, items_seat ha, replay, replay, List.foldl_cons]

end Splice

namespace World

/-- The view is bound to the item, or to a source that is the same. -/
def ShowsItem (w : World) (item : Value) (v : ViewId) : Prop :=
  ∃ s, (w.views.get v).source = some s ∧ (s = item ∨ s.same item = true)

/-- **Seated.** The spared views of a roll are bound to their items. -/
def Seated (w : World) (spared : ViewId → Bool) (roll : Roll) : Prop :=
  ∀ entry ∈ roll, spared entry.2 → w.ShowsItem entry.1 entry.2

/-- Views that have been made, each listed once. -/
structure Tidy (w : World) (views : List ViewId) : Prop where
  nodup : views.Nodup
  made : ∀ v ∈ views, v.index < w.views.size

/-- What the spared ones among some views are bound to stays. -/
structure Keeps (spared : ViewId → Bool) (views : List ViewId) (w w' : World) : Prop where
  size : w.views.size ≤ w'.views.size
  view : ∀ v ∈ views, spared v → w'.views.get v = w.views.get v

variable {spared : ViewId → Bool} {views views' : List ViewId} {v : ViewId} {w w' : World}

theorem Tidy.later (h : w.Tidy views) (hs : w.views.size ≤ w'.views.size) : w'.Tidy views :=
  ⟨h.nodup, fun v hv => Nat.lt_of_lt_of_le (h.made v hv) hs⟩

theorem Tidy.perm (h : w.Tidy views) (hp : views'.Perm views) : w.Tidy views' :=
  ⟨hp.nodup_iff.mpr h.nodup, fun v hv => h.made v (hp.mem_iff.mp hv)⟩

theorem Tidy.sublist (h : w.Tidy views) (hs : views'.Sublist views) : w.Tidy views' :=
  ⟨hs.nodup h.nodup, fun v hv => h.made v (hs.subset hv)⟩

namespace Keeps

theorem of_lasts (h : w.Lasts spared w') (hm : ∀ v ∈ views, v.index < w.views.size) :
    Keeps spared views w w' :=
  ⟨h.size_views, fun v hv hs => h.spared hs (hm v hv)⟩

theorem of_but (h : w.Lasts (sparedBut spared v) w') (hv : v ∉ views)
    (hm : ∀ v ∈ views, v.index < w.views.size) : Keeps spared views w w' := by
  refine ⟨h.size_views, fun u hu hs => h.spared ?_ (hm u hu)⟩
  have hne : u ≠ v := fun he => hv (he ▸ hu)
  simp [sparedBut, hs, hne]

theorem of_eq (h : w'.views = w.views) : Keeps spared views w w' :=
  ⟨Nat.le_of_eq (congrArg Store.size h.symm), fun _ _ _ => by rw [h]⟩

theorem refl (w : World) : Keeps spared views w w := of_eq rfl

theorem trans {a b c : World} (h : Keeps spared views a b) (h' : Keeps spared views b c) :
    Keeps spared views a c :=
  ⟨Nat.le_trans h.size h'.size, fun v hv hs => (h'.view v hv hs).trans (h.view v hv hs)⟩

theorem mono (h : Keeps spared views w w') (hs : ∀ v ∈ views', v ∈ views) :
    Keeps spared views' w w' :=
  ⟨h.size, fun v hv => h.view v (hs v hv)⟩

end Keeps

theorem Seated.keeps {roll : Roll} (h : w.Seated spared roll)
    (hk : Keeps spared roll.views w w') : w'.Seated spared roll := by
  intro entry he hs
  have hv := hk.view entry.2 (List.mem_map_of_mem he) hs
  simpa only [ShowsItem, hv] using h entry he hs

theorem Seated.append {a b : Roll} (h : w.Seated spared a) (h' : w.Seated spared b) :
    w.Seated spared (a ++ b) :=
  fun entry he => (List.mem_append.mp he).elim (h entry) (h' entry)

/-- Entries are put where a splice has left a place for them. -/
theorem Seated.seat {s : Splice} {added roll : Roll} (h : w.Seated spared (s.seat [] roll))
    (ha : w.Seated spared added) : w.Seated spared (s.seat added roll) := by
  unfold Splice.seat at h ⊢
  rw [List.append_nil] at h
  have htaken : w.Seated spared (roll.take s.index) :=
    fun entry he => h entry (List.mem_append_left _ he)
  have hdropped : w.Seated spared (roll.drop (s.index + s.removed.length)) :=
    fun entry he => h entry (List.mem_append_right _ he)
  exact (htaken.append ha).append hdropped

/-- What a splice leaves of a roll stays seated. -/
theorem Seated.left {s : Splice} {roll : Roll} (h : w.Seated spared roll) :
    w.Seated spared (s.seat [] roll) := by
  refine fun entry he => h entry ?_
  rw [Splice.seat, List.append_nil] at he
  exact (List.mem_append.mp he).elim List.mem_of_mem_take List.mem_of_mem_drop

end World

namespace Setting.Around

open Machine World

variable {spared : ViewId → Bool} {depth : Nat} {w : World} {α : Type}

/-- What stands apart from binding views. -/
theorem apart_leads {m : Machine α} [Apart m] [∀ S : Setting (lasting spared), S.Agrees m]
    (w : World) : (aroundSetting spared depth).Leads m w fun r w' =>
      (∃ a, r = .ok a) ∧ w.Lasts spared w' :=
  fun _ _ h => ⟨h, lasts_of_apart h⟩

theorem sparedBut_le (spared : ViewId → Bool) (v : ViewId) : ∀ u, sparedBut spared v u → spared u :=
  fun _ h => (Bool.and_eq_true _ _ ▸ h : _ ∧ _).1

theorem sparing_but {c : Call} {v : ViewId} (hc : c.view? = some v) (w : World) :
    sparing (sparedBut spared v) c w = true := by
  simp [sparing, hc, sparedBut]

/-- Unbinding a view leaves the other views alone. -/
theorem unbindView_leads (v : ViewId) (w : World) :
    @Leads Unit _ (aroundSetting spared depth) (Machine.call (.unbindView v)) w fun r w' =>
      r = .ok () ∧ w.Lasts (sparedBut spared v) w' := by
  intro r w' h
  have hf : @Firm Unit (callsAround spared depth) (Machine.call (.unbindView v)) := inferInstance
  obtain ⟨⟨⟩, hr⟩ := hf.ok h
  exact ⟨h, hr, lasts_of_callsAround (sparedBut_le spared v) (sparing_but (c := .unbindView v) rfl w) h⟩

/-- So does binding a view, which then has the source. -/
theorem bindView_leads {v : ViewId} (hv : v.index < w.views.size) (item : Value)
    (context : ContextId) :
    @Leads Unit _ (aroundSetting spared depth) (Machine.call (.bindView v item context)) w fun r w' =>
      w.Lasts (sparedBut spared v) w' ∧ (r = .ok () → spared v → w'.ShowsItem item v) := by
  intro r w' h
  refine ⟨h, lasts_of_callsAround (sparedBut_le spared v) (sparing_but (c := .bindView v item context) rfl w) h, ?_⟩
  rintro rfl hs
  obtain ⟨steps, hb⟩ := bindView_iff.mp (show bindView v item context _ w = _ from h)
  exact source_of_binds hs hv hb

/-- **Showing an item.** What comes of binding a view to an item, while some views are left alone. -/
def Showing (spared : ViewId → Bool) (views : List ViewId) (w : World) (v : ViewId) (item : Value)
    (r : Except Error Unit) (w' : World) : Prop :=
  Keeps spared views w w' ∧ (r = .ok () → spared v → w'.ShowsItem item v)

/-- It makes no difference to it that views are held on to. -/
theorem held_leads {m : Machine Unit} {v : ViewId} {views held : List ViewId} {item : Value}
    (h : (aroundSetting spared depth).Leads m { w with held := held.map .view ++ w.held }
      (Showing spared views { w with held := held.map .view ++ w.held } v item)) :
    (aroundSetting spared depth).Leads (holdingViews held m) w
      (Showing spared views w v item) := by
  refine (Leads.within h).mono ?_
  rintro r _ ⟨w₁, rfl, hk, hs⟩
  exact ⟨⟨hk.size, hk.view⟩, hs⟩

/-- A view that is bound anew. -/
theorem rebind_leads {v : ViewId} {views : List ViewId} (hv : v.index < w.views.size)
    (hn : v ∉ views) (hm : ∀ u ∈ views, u.index < w.views.size) (item : Value)
    (context : ContextId) :
    (aroundSetting spared depth).Leads (do
        Machine.call (.unbindView v)
        Machine.call (.bindView v item context)) w (Showing spared views w v item) := by
  refine (unbindView_leads v _).bind (fun e _ h => absurd h.1 nofun) fun _ w₁ h => ?_
  have hk : Keeps spared views w w₁ := .of_but h.2 hn hm
  refine (bindView_leads (Nat.lt_of_lt_of_le hv hk.size) item context).mono fun r w₂ h₂ => ?_
  have hm₁ : ∀ u ∈ views, u.index < w₁.views.size :=
    fun u hu => Nat.lt_of_lt_of_le (hm u hu) hk.size
  exact ⟨hk.trans (.of_but h₂.1 hn hm₁), h₂.2⟩

/-- A view is given an item: it gets a context, is bound anew, and is put into place. -/
theorem seatView_leads {v : ViewId} {withdrawn views : List ViewId} (hv : v.index < w.views.size)
    (hn : v ∉ views) (hm : ∀ u ∈ views, u.index < w.views.size) (childContext : ContextId)
    (length position : Nat) (item : Value) (reference : NodeId) (views' : List ViewId) :
    (aroundSetting spared depth).Leads (do
        let context ← itemContext childContext position length
        let bound ← attempt <| holdingViews (withdrawn ++ views) do
          Machine.call (.unbindView v)
          Machine.call (.bindView v item context)
        insertViewBefore v reference
        return ((withdrawn, views'), bound) :
          Machine ((List ViewId × List ViewId) × Except Error Unit)) w fun r w' =>
      ∃ outcome, r = .ok ((withdrawn, views'), outcome) ∧ Keeps spared views w w' ∧
        (outcome = .ok () → spared v → w'.ShowsItem item v) := by
  refine (apart_leads w).bind (fun e _ h => absurd h.1 (by simp)) fun context w₁ h₁ => ?_
  have hk₁ : Keeps spared views w w₁ := .of_lasts h₁.2 hm
  have hv₁ := Nat.lt_of_lt_of_le hv hk₁.size
  have hm₁ : ∀ u ∈ views, u.index < w₁.views.size :=
    fun u hu => Nat.lt_of_lt_of_le (hm u hu) hk₁.size
  refine (held_leads (rebind_leads ?made hn ?others item context)).attempt_bind
    fun outcome w₂ h₂ => ?_
  case made => exact hv₁
  case others => exact hm₁
  refine (apart_leads w₂).bind (fun e _ h => absurd h.1 (by simp)) fun _ w₃ h₃ => ?_
  have hm₂ : ∀ u ∈ views, u.index < w₂.views.size :=
    fun u hu => Nat.lt_of_lt_of_le (hm₁ u hu) h₂.1.size
  refine .of_eq (fun _ => rfl) ⟨outcome, rfl, hk₁.trans (h₂.1.trans (.of_lasts h₃.2 hm₂)), ?_⟩
  intro ho hs
  have hview := h₃.2.spared hs (Nat.lt_of_lt_of_le hv₁ h₂.1.size)
  simpa only [ShowsItem, hview] using h₂.2 ho hs

/-- The views in place and one more, which is put among them, are still each listed once. -/
theorem tidy_seated {v : ViewId} {withdrawn views : List ViewId} (position : Nat)
    (h : w.Tidy (withdrawn ++ v :: views)) :
    w.Tidy (withdrawn ++ (views.take position ++ v :: views.drop position)) := by
  have hp : (views.take position ++ v :: views.drop position).Perm (v :: views) := by
    have hm : (views.take position ++ v :: views.drop position).Perm
        (v :: (views.take position ++ views.drop position)) := List.perm_middle
    rwa [List.take_append_drop] at hm
  have hw := hp.append_left withdrawn
  exact ⟨hw.nodup_iff.mpr h.nodup, fun u hu => h.made u (hw.mem_iff.mp hu)⟩

/-- **Seating items** at a position of some views: what comes of it are the withdrawn views that are
left and the views in place. If no item fails there are views for the items at the position. In
any case the views that were there are left alone. -/
def Seating (spared : ViewId → Bool) (views : List ViewId) (w : World) (position : Nat)
    (items : List Value) (r : Except Error ((List ViewId × List ViewId) × Except Error Unit))
    (w' : World) : Prop :=
  ∃ withdrawn' views' outcome, r = .ok ((withdrawn', views'), outcome) ∧
    w'.Tidy (withdrawn' ++ views') ∧ Keeps spared views w w' ∧
    (outcome = .ok () → ∃ added : Roll, added.items = items ∧ w'.Seated spared added ∧
      views' = views.take position ++ added.views ++ views.drop position)

/-- A view that has been withdrawn or made is seated. -/
theorem seating_of_view {v : ViewId} {withdrawn views : List ViewId}
    (h : w.Tidy (withdrawn ++ v :: views)) (childContext : ContextId) (length position : Nat)
    (item : Value) (reference : NodeId) :
    (aroundSetting spared depth).Leads (do
        let context ← itemContext childContext position length
        let bound ← attempt <| holdingViews (withdrawn ++ views) do
          Machine.call (.unbindView v)
          Machine.call (.bindView v item context)
        insertViewBefore v reference
        return ((withdrawn, views.take position ++ v :: views.drop position), bound)) w
      (Seating spared views w position [item]) := by
  have hn : v ∉ views := (List.nodup_cons.mp (List.nodup_append.mp h.nodup).2.1).1
  have hv : v.index < w.views.size := h.made v (by simp)
  have hm : ∀ u ∈ views, u.index < w.views.size := fun u hu => h.made u (by simp [hu])
  refine (seatView_leads hv hn hm childContext length position item reference _).mono ?_
  rintro r w' ⟨outcome, rfl, hk, hs⟩
  refine ⟨withdrawn, _, outcome, rfl, (tidy_seated position h).later hk.size, hk, fun ho => ?_⟩
  refine ⟨[(item, v)], rfl, ?_, by simp [Roll.views]⟩
  intro entry he hspared
  obtain rfl := List.mem_singleton.mp he
  exact hs ho hspared

/-- What is in front of and behind what is put at a position of a list. -/
theorem take_drop_put {l : List ViewId} {position : Nat} (hp : position ≤ l.length)
    (put : List ViewId) :
    (l.take position ++ put ++ l.drop position).take (position + put.length) =
        l.take position ++ put ∧
      (l.take position ++ put ++ l.drop position).drop (position + put.length) =
        l.drop position := by
  have hl : (l.take position ++ put).length = position + put.length := by simp [hp]
  exact ⟨List.take_left' hl, List.drop_left' hl⟩

/-- **One item is given a view**, the first withdrawn one or a new one. -/
theorem addView_leads {withdrawn views : List ViewId} (h : w.Tidy (withdrawn ++ views))
    (location : NodeId) (template : TemplateId) (childContext : ContextId) (length position : Nat)
    (item : Value) :
    (aroundSetting spared depth).Leads
      (addView location template childContext length position item withdrawn views) w
      (Seating spared views w position [item]) := by
  unfold addView
  extract_lets place
  have hplace : ∀ reference, (aroundSetting spared depth).Leads (place reference) w
      (Seating spared views w position [item]) := by
    intro reference
    cases withdrawn with
    | cons v rest =>
      have hp : (rest ++ v :: views).Perm (v :: rest ++ views) := List.perm_middle
      have ht : w.Tidy (rest ++ v :: views) :=
        ⟨hp.nodup_iff.mpr h.nodup, fun u hu => h.made u (hp.mem_iff.mp hu)⟩
      exact seating_of_view ht childContext length position item reference
    | nil =>
      refine (createView_leads template w).attempt_bind fun outcome w₁ h₁ => ?_
      have hk : Keeps spared views w w₁ := .of_lasts (.of_created h₁.1) h.made
      cases outcome with
      | error e => exact .of_eq (fun _ => rfl) ⟨[], views, .error e, rfl, h.later hk.size, hk, nofun⟩
      | ok v =>
        obtain ⟨hi, hv⟩ := h₁.2 v rfl
        have hn : v ∉ views := fun hmem => absurd (h.made v hmem) (by omega)
        have ht : w₁.Tidy ([] ++ v :: views) := by
          refine ⟨List.nodup_cons.mpr ⟨hn, h.nodup⟩, fun u hu => ?_⟩
          rcases List.mem_cons.mp hu with rfl | hu
          · exact hv
          · exact (h.later hk.size).made u hu
        refine (seating_of_view ht childContext length position item reference).mono ?_
        rintro r w' ⟨withdrawn', views', outcome, rfl, ht', hk', hs⟩
        exact ⟨withdrawn', views', outcome, rfl, ht', hk.trans hk', hs⟩
  split
  · exact Leads.read (hplace _)
  · exact hplace location

/-- **The items of a splice are given views**, one after another, until one fails. -/
theorem addViews_leads {withdrawn views : List ViewId} {position : Nat} {items : List Value}
    (h : w.Tidy (withdrawn ++ views)) (hp : position ≤ views.length)
    (location : NodeId) (template : TemplateId) (childContext : ContextId) (length : Nat) :
    (aroundSetting spared depth).Leads
      (addViews location template childContext length position items withdrawn views) w
      (Seating spared views w position items) := by
  induction items generalizing withdrawn views position w with
  | nil =>
    refine .of_eq (fun _ => rfl) ⟨withdrawn, views, .ok (), rfl, h, .refl w, fun _ => ?_⟩
    exact ⟨[], rfl, nofun, by simp [Roll.views]⟩
  | cons item items ih =>
    unfold addViews
    refine (addView_leads h location template childContext length position item).bind
      (fun e _ ⟨_, _, _, h, _⟩ => absurd h nofun) ?_
    rintro _ w₁ ⟨withdrawn₁, views₁, outcome, ⟨⟩, ht₁, hk₁, hs₁⟩
    cases outcome with
    | error e =>
      exact .of_eq (fun _ => rfl) ⟨withdrawn₁, views₁, .error e, rfl, ht₁, hk₁, nofun⟩
    | ok u =>
      obtain ⟨first, hitems, hseated, rfl⟩ := hs₁ rfl
      have hone : first.views.length = 1 := by
        rw [Roll.length_views, ← Roll.length_items, hitems, List.length_singleton]
      obtain ⟨htake, hdrop⟩ := take_drop_put hp first.views
      rw [hone] at htake hdrop
      refine (ih ht₁ (by simp [hone]; omega)).mono ?_
      rintro r w' ⟨withdrawn', views', outcome, rfl, ht', hk', hs'⟩
      have hmem : ∀ u ∈ views, u ∈ views.take position ++ first.views ++ views.drop position := by
        intro u hu
        rw [← List.take_append_drop position views] at hu
        simp only [List.mem_append] at hu ⊢
        exact hu.imp_left .inl
      refine ⟨withdrawn', views', outcome, rfl, ht', hk₁.trans (hk'.mono hmem), fun ho => ?_⟩
      obtain ⟨rest, hrest, hseated', rfl⟩ := hs' ho
      have hfirst : w'.Seated spared first := hseated.keeps (hk'.mono fun u hu => by simp [hu])
      refine ⟨first ++ rest, ?_, hfirst.append hseated', ?_⟩
      · rw [Roll.items_append, hitems, hrest, List.singleton_append]
      · rw [htake, hdrop, Roll.views_append]
        simp only [List.append_assoc]

/-- A view is disposed of. -/
theorem disposeView_leads (v : ViewId) (w : World) :
    (aroundSetting spared depth).Leads (disposeView v) w fun r w' =>
      r = .ok () ∧ w.Lasts (sparedBut spared v) w' := by
  unfold disposeView
  refine Leads.read ((apart_leads w).bind (fun e _ h => absurd h.1 (by simp)) fun _ w₁ h₁ => ?_)
  exact (unbindView_leads v w₁).mono fun _ _ h =>
    ⟨h.1, (h₁.2.fewer (sparedBut_le spared v)).trans h.2⟩

/-- A view is taken out: it is withdrawn, or disposed of. -/
theorem withdrawView_leads (recycle : Bool) (v : ViewId) (w : World) :
    (aroundSetting spared depth).Leads (withdrawView recycle v) w fun r w' =>
      r = .ok () ∧ w.Lasts (sparedBut spared v) w' := by
  unfold withdrawView
  split
  · refine (apart_leads w).mono ?_
    rintro _ w' ⟨⟨⟨⟩, rfl⟩, hl⟩
    exact ⟨rfl, hl.fewer (sparedBut_le spared v)⟩
  · exact disposeView_leads v w

/-- Something that is done to one view after another leaves other views alone. -/
theorem eachView_leads {f : ViewId → Machine Unit} {vs views : List ViewId}
    (hf : ∀ v w, (aroundSetting spared depth).Leads (f v) w fun r w' =>
      r = .ok () ∧ w.Lasts (sparedBut spared v) w')
    (hd : ∀ v ∈ vs, v ∉ views) (hm : ∀ v ∈ views, v.index < w.views.size) :
    (aroundSetting spared depth).Leads (each f vs) w fun r w' =>
      r = .ok () ∧ Keeps spared views w w' := by
  induction vs generalizing w with
  | nil => exact .of_eq (fun _ => rfl) ⟨rfl, .refl w⟩
  | cons v vs ih =>
    obtain ⟨hv, hvs⟩ := List.forall_mem_cons.mp hd
    unfold each
    refine (hf v w).bind (fun e _ h => absurd h.1 nofun) fun _ w₁ h₁ => ?_
    have hk : Keeps spared views w w₁ := .of_but h₁.2 hv hm
    exact (ih hvs fun u hu => Nat.lt_of_lt_of_le (hm u hu) hk.size).mono
      fun _ _ h => ⟨h.1, hk.trans h.2⟩

/-- The same while views are held on to. -/
theorem eachView_held_leads {f : ViewId → Machine Unit} {vs views : List ViewId}
    (hf : ∀ v w, (aroundSetting spared depth).Leads (f v) w fun r w' =>
      r = .ok () ∧ w.Lasts (sparedBut spared v) w')
    (hd : ∀ v ∈ vs, v ∉ views) (hm : ∀ v ∈ views, v.index < w.views.size) (held : List ViewId) :
    (aroundSetting spared depth).Leads (holdingViews held (each f vs)) w fun r w' =>
      r = .ok () ∧ Keeps spared views w w' := by
  refine (Leads.within (eachView_leads hf hd hm)).mono ?_
  rintro r _ ⟨w₁, rfl, hr, hk⟩
  exact ⟨hr, hk.size, hk.view⟩

/-- What is taken out of a list and what is kept. -/
theorem perm_taken_kept (start count : Nat) (views : List ViewId) :
    ((views.drop start).take count ++ (views.take start ++ views.drop (start + count))).Perm
      views := by
  have hdrop : (views.drop start).take count ++ views.drop (start + count) = views.drop start := by
    rw [← List.drop_drop, List.take_append_drop]
  have hall : views.take start ++
      ((views.drop start).take count ++ views.drop (start + count)) = views := by
    rw [hdrop, List.take_append_drop]
  have hcomm : ((views.drop start).take count ++ views.take start).Perm
      (views.take start ++ (views.drop start).take count) := List.perm_append_comm
  have hswap := hcomm.append_right (views.drop (start + count))
  rwa [List.append_assoc, List.append_assoc, hall] at hswap

/-- What carrying out splices comes to. The views are listed once each, whatever comes of it; and if
no item fails the splices have been carried out on every roll of them, with views bound to the items
that they add. -/
def CarryingOut (spared : ViewId → Bool) (views : List ViewId) (w : World) (splices : List Splice)
    (r : Except Error ((List ViewId × List ViewId) × Except Error Unit)) (w' : World) : Prop :=
  ∃ withdrawn' views' outcome, r = .ok ((withdrawn', views'), outcome) ∧
    w'.Tidy (withdrawn' ++ views') ∧
    (outcome = .ok () → ∀ roll : Roll, roll.views = views → w.Seated spared roll →
      ∃ roll' : Roll, Splice.Seats splices roll roll' ∧ roll'.views = views' ∧
        w'.Seated spared roll')

/-- What is taken out of some views is either withdrawn or let go of. -/
theorem tidy_taken {withdrawn taken kept views : List ViewId} (h : w.Tidy (withdrawn ++ views))
    (hp : (taken ++ kept).Perm views) (recycle : Bool) :
    w.Tidy ((if recycle then withdrawn ++ taken else withdrawn) ++ kept) := by
  have hall : w.Tidy (withdrawn ++ (taken ++ kept)) := h.perm (hp.append_left withdrawn)
  split
  · rwa [List.append_assoc]
  · exact hall.sublist ((List.sublist_append_right taken kept).append_left withdrawn)

/-- A splice has been carried out, and then the others are. -/
theorem CarryingOut.cons {views kept next : List ViewId} {splice : Splice} {splices : List Splice}
    {added : Roll} {w w' w'' : World}
    {r : Except Error ((List ViewId × List ViewId) × Except Error Unit)}
    (hkept : kept = views.take (min splice.index views.length) ++
      views.drop (min splice.index views.length + splice.removed.length))
    (hk : Keeps spared kept w w') (hitems : added.items = splice.added)
    (hadded : w'.Seated spared added)
    (hviews : next = kept.take (min splice.index views.length) ++ added.views ++
      kept.drop (min splice.index views.length))
    (h : CarryingOut spared next w' splices r w'') :
    CarryingOut spared views w (splice :: splices) r w'' := by
  obtain ⟨withdrawn', views', outcome, rfl, ht', hs'⟩ := h
  refine ⟨withdrawn', views', outcome, rfl, ht', fun ho roll hroll hs => ?_⟩
  subst hroll
  have hleft : (splice.seat [] roll).views = kept := by
    rw [Splice.views_seat, hkept]
    simp [Roll.views]
  -- The items were put where the splice took the others out: behind what it left in front.
  have hplace : (roll.views.take (min splice.index roll.views.length)).length =
      min splice.index roll.views.length := by simp
  have hnext : (splice.seat added roll).views = next := by
    rw [hviews, Splice.views_seat, hkept, List.take_left' hplace, List.drop_left' hplace]
  have hseated : w'.Seated spared (splice.seat added roll) :=
    (hs.left.keeps (hleft ▸ hk)).seat hadded
  obtain ⟨roll', hseats, hv', hsd⟩ := hs' ho _ hnext hseated
  exact ⟨roll', .cons hitems hseats, hv', hsd⟩

/-- **Splices are carried out on the views.** -/
theorem applySplices_leads {withdrawn views : List ViewId} {splices : List Splice}
    (h : w.Tidy (withdrawn ++ views)) (s : RepeatState) (template : TemplateId)
    (childContext : ContextId) (length : Nat) :
    (aroundSetting spared depth).Leads
      (applySplices s template childContext length splices withdrawn views) w
      (CarryingOut spared views w splices) := by
  induction splices generalizing withdrawn views w with
  | nil =>
    exact .of_eq (fun _ => rfl) ⟨withdrawn, views, .ok (), rfl, h,
      fun _ roll hv hs => ⟨roll, .nil roll, hv, hs⟩⟩
  | cons splice splices ih =>
    unfold applySplices
    extract_lets start taken kept withdrawn₁
    have hle : start ≤ kept.length := by simp [kept, start]
    have hperm : (taken ++ kept).Perm views := perm_taken_kept start splice.removed.length views
    have hdisj : ∀ v ∈ taken, v ∉ kept := by
      have hn := hperm.nodup_iff.mpr (List.nodup_append.mp h.nodup).2.1
      exact fun v hv hk => (List.nodup_append.mp hn).2.2 v hv v hk rfl
    have ht : w.Tidy (withdrawn₁ ++ kept) := tidy_taken h hperm s.options.recycle
    have hmade : ∀ v ∈ kept, v.index < w.views.size := fun v hv =>
      ht.made v (List.mem_append_right _ hv)
    refine (eachView_held_leads (withdrawView_leads s.options.recycle) hdisj hmade _).bind
      (fun e _ h => absurd h.1 nofun) fun _ w₁ h₁ => ?_
    refine (addViews_leads (ht.later h₁.2.size) hle s.location template childContext
      length).bind (fun e _ ⟨_, _, _, h, _⟩ => absurd h nofun) ?_
    rintro _ w₂ ⟨withdrawn₂, views₂, outcome, ⟨⟩, ht₂, hk₂, hs₂⟩
    cases outcome with
    | error e => exact .of_eq (fun _ => rfl) ⟨withdrawn₂, views₂, .error e, rfl, ht₂, nofun⟩
    | ok u =>
      obtain ⟨added, hitems, hadded, hviews⟩ := hs₂ rfl
      exact (ih ht₂).mono fun _ _ => .cons rfl (h₁.2.trans hk₂) hitems hadded hviews

end Setting.Around

end ReactiveViews
