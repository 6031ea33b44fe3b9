import ReactiveViews.Proofs.Positions.Moving
import ReactiveViews.Proofs.Repeats.Letting
/-!
# Batches of splices
-/

namespace ReactiveViews

open Machine World

namespace Setting

variable {α : Type} {S : Setting custody} {w₀ w : World} {views : List ViewId} {v : ViewId}

/-! ## Attending to one view -/

/-- An own view is unbound. -/
theorem unbindView_attends (h : Own w₀ w views) (hv : v ∈ views) :
    @Leads Unit custody S (Machine.call (.unbindView v)) w fun r w' =>
      r = .ok () ∧ Attends w₀ w views v w' ∧ w.LeavesBut (· = v) w' ∧
        (w'.views.get v).source = none ∧
        ∀ c, (w'.views.get v).context = some c → (w.views.get v).context = some c := by
  refine (Leads.ran (Leads.call (c := .unbindView v) h.sole)).mono ?_
  rintro r w' ⟨⟨hw', hr, hfree⟩, hrun⟩
  obtain ⟨_, rfl⟩ := Firm.ok (m := Machine.call (.unbindView v)) hrun
  obtain ⟨hsource, hcontext⟩ := hfree (h.free hv)
  have hold : ∀ c, (w'.views.get v).context = some c → (w.views.get v).context = some c := by
    intro c hc
    obtain hn | he := hcontext
    · exact absurd (hn.symm.trans hc) nofun
    · exact he ▸ hc
  exact ⟨rfl, ⟨h.bound hv hr hw' fun c hc => .inl (hold c hc), fun hu hn => h.alone hr hu hn⟩, hr,
    hsource, hold⟩

/-- One that is not bound is bound in a spare context. -/
theorem bindView_attends {c : ContextId} (h : Own w₀ w views) (hv : v ∈ views)
    (hn : (w.views.get v).source = none) (hc : Spare w₀ w views c) (item : Value) :
    @Leads Unit custody S (Machine.call (.bindView v item c)) w fun _ w' =>
      Attends w₀ w views v w' ∧ (w'.views.get v).context = some c ∧ w'.position c = w.position c := by
  have he : custody.Entry (.bindView v item c) w := ⟨h.sole, (h.free hv).toUnplaced⟩
  refine (Leads.call he).mono fun r w' ⟨hw', hr, hbound⟩ => ?_
  have hcontext := hbound (h.free hv) hn
  refine ⟨⟨h.bound hv hr hw' fun d hd => .inr ?_, fun hu hne => h.alone hr hu hne⟩, hcontext,
    hr.position hc.free⟩
  obtain rfl := Option.some.inj (hcontext.symm.trans hd)
  exact hc

/-- An own view is bound anew. -/
theorem rebindView_attends {c : ContextId} (h : Own w₀ w views) (hv : v ∈ views)
    (hc : Spare w₀ w views c) (item : Value) :
    S.Leads (do
        Machine.call (.unbindView v)
        Machine.call (.bindView v item c)) w fun _ w' =>
      Attends w₀ w views v w' ∧ (w'.views.get v).context = some c ∧ w'.position c = w.position c := by
  refine (unbindView_attends h hv).bind (fun e _ h => absurd h.1 nofun) fun _ w₁ h₁ => ?_
  obtain ⟨-, ht, hr, hsource, hold⟩ := h₁
  have hc₁ : Spare w₀ w₁ views c := by
    refine hc.later hr fun u hu hu' => ?_
    by_cases he : u = v
    · exact he ▸ hold c (he ▸ hu')
    · exact (ht.others hu he).record ▸ hu'
  refine (bindView_attends ht.own hv hsource hc₁ item).mono fun _ w' h' => ?_
  exact ⟨ht.trans h'.1, h'.2.1, h'.2.2.trans (hr.position hc.free)⟩

/-- A context is made for one of the views. -/
theorem itemContext_spare (h : Own w₀ w views) (childContext : ContextId) (index length : Nat) :
    S.Leads (itemContext childContext index length) w fun r w' => ∃ c, r = .ok c ∧
      w.Leaves w' ∧ w'.Sole ∧ Spare w₀ w' views c ∧ w'.position c = (index, length) := by
  let s := w.contexts.get childContext
  let item : ContextState := ⟨s.parent, s.parentContext, index, length, none⟩
  let c : ContextId := (w.contexts.add item).1
  have he : w.EasesBut (fun _ => False) { w with contexts := (w.contexts.add item).2 } :=
    .of_contexts (Store.Grown.add w.contexts item).size fun d hd => by
      rw [(Store.Grown.add w.contexts item).get d hd]
      exact ⟨rfl, rfl⟩
  have hnew : ¬ w.Made (.context c) := Nat.lt_irrefl _
  refine .of_eq (fun _ => rfl) ⟨c, rfl, he.leaves, he.sole h.sole, ⟨⟨?_, ?_⟩, ?_, ?_⟩, ?_⟩
  · show w.contexts.size < (w.contexts.add item).2.size
    rw [Store.size_add]
    exact Nat.lt_succ_self _
  · exact fun g hg => hnew (h.sole.made (he.holds hg))
  · exact fun hm => hnew (h.leaves.made hm)
  · exact fun hu hd => hnew (h.freeSeat hu hd).made
  · rw [World.position]
    exact congrArg (fun x : ContextState => (x.index, x.length)) (Store.get_add_self w.contexts item)

/-- A view is created. -/
theorem createView_own (h : Own w₀ w views) (t : TemplateId) :
    S.Leads (createView t) w fun r w' => w.Leaves w' ∧ w'.Sole ∧ ∀ v, r = .ok v →
      Own w₀ w' (v :: views) ∧ (w'.views.get v).source = none ∧ (w'.views.get v).context = none := by
  refine (createView_leads t w).mono fun r w' ⟨hc, hv⟩ => ?_
  have he : w.EasesBut (fun _ => False) w' := .of_created hc
  refine ⟨he.leaves, he.sole h.sole, fun v hr => ?_⟩
  obtain ⟨hi, hm⟩ := hv v hr
  have hnew := hc.newView v (Nat.le_of_eq hi.symm)
  exact ⟨h.created hc (Nat.le_of_eq hi.symm) hm, hnew.source, hnew.context⟩

/-- An own view is disposed of. -/
theorem disposeView_attends (h : Own w₀ w views) (hv : v ∈ views) :
    S.Leads (disposeView v) w fun r w' => r = .ok () ∧ Attends w₀ w views v w' ∧
      (w₀.Resting w v → w₀.Resting w' v) := by
  unfold disposeView
  refine .read (Leads.bind (Leads.ran (Agrees.agreesAt h.sole)) (fun e w₁ h₁ => ?_) fun _ w₁ h₁ => ?_)
  · obtain ⟨_, he⟩ := Firm.ok h₁.2
    exact absurd he nofun
  · obtain ⟨⟨hr₁, hw₁⟩, -⟩ := h₁
    have h₁ := h.later hr₁ hw₁
    refine (unbindView_attends h₁ hv).mono fun r w' ⟨hr, ht, hl, _, hold⟩ => ?_
    refine ⟨hr, (h.attends hr₁ hw₁ v).trans ht, fun hrest c hc hm => ?_⟩
    have hc₁ := hold c hc
    exact (hl.position (h₁.freeSeat hv hc₁)).trans (hrest.alone (h.alone hr₁ hv id) c hc₁ hm)

/-- An own view is taken out. -/
theorem withdrawView_attends (recycle : Bool) (h : Own w₀ w views) (hv : v ∈ views) :
    S.Leads (withdrawView recycle v) w fun r w' => r = .ok () ∧ Attends w₀ w views v w' ∧
      (w₀.Resting w v → w₀.Resting w' v) := by
  unfold withdrawView
  split
  · refine (Leads.ran (Agrees.agreesAt h.sole)).mono fun r w' ⟨⟨hr, hw'⟩, hrun⟩ => ?_
    obtain ⟨_, rfl⟩ := Firm.ok hrun
    exact ⟨rfl, h.attends hr hw' v, fun hrest => hrest.alone (h.alone hr hv id)⟩
  · exact disposeView_attends h hv

/-- One view after another is attended to. -/
theorem each_attends {f : ViewId → Machine Unit}
    (hf : ∀ {v w}, Own w₀ w views → v ∈ views → S.Leads (f v) w fun r w' => r = .ok () ∧
      Attends w₀ w views v w' ∧ (w₀.Resting w v → w₀.Resting w' v))
    {vs : List ViewId} (hvs : ∀ v ∈ vs, v ∈ views) (h : Own w₀ w views) :
    S.Leads (each f vs) w fun r w' => r = .ok () ∧ Own w₀ w' views ∧
      (∀ u ∈ views, u ∉ vs → w.Alone w' u) ∧
        ∀ u ∈ views, w₀.Resting w u → w₀.Resting w' u := by
  induction vs generalizing w with
  | nil => exact .of_eq (fun _ => rfl) ⟨rfl, h, fun u _ _ => .refl w u, fun _ _ hr => hr⟩
  | cons v vs ih =>
    obtain ⟨hv, hvs⟩ := List.forall_mem_cons.mp hvs
    unfold each
    refine (hf h hv).bind (fun e _ h => absurd h.1 nofun) fun _ w₁ ⟨_, ht, hrest⟩ => ?_
    refine (ih hvs ht.own).mono fun r w' ⟨hr, h', halone, hrest'⟩ => ⟨hr, h', fun u hu hn => ?_,
      fun u hu hru => hrest' u hu ?_⟩
    · have hne : u ≠ v := fun he => hn (he ▸ List.mem_cons_self)
      exact (ht.others hu hne).trans (halone u hu fun hm => hn (List.mem_cons_of_mem v hm))
    · by_cases he : u = v
      · subst he
        exact hrest hru
      · exact hru.alone (ht.others hu he)

/-- The same while views are held on to. -/
theorem each_held_attends {f : ViewId → Machine Unit}
    (hf : ∀ {v w}, Own w₀ w views → v ∈ views → S.Leads (f v) w fun r w' => r = .ok () ∧
      Attends w₀ w views v w' ∧ (w₀.Resting w v → w₀.Resting w' v))
    {vs : List ViewId} (hvs : ∀ v ∈ vs, v ∈ views) (h : Own w₀ w views) (held : List ViewId) :
    S.Leads (holdingViews held (each f vs)) w fun r w' => r = .ok () ∧ Own w₀ w' views ∧
      (∀ u ∈ views, u ∉ vs → w.Alone w' u) ∧
        ∀ u ∈ views, w₀.Resting w u → w₀.Resting w' u := by
  refine (Leads.within (each_attends hf hvs (h.held _))).mono ?_
  rintro r _ ⟨w₁, rfl, hr, h₁, halone, hrest⟩
  exact ⟨hr, h₁.held _, fun u hu hn => ⟨(halone u hu hn).record, (halone u hu hn).position⟩, hrest⟩

/-! ## Splices -/

/-- A view is given a context and bound anew, and put into place. -/
theorem seatView_stock {withdrawn : List ViewId} (h : Stock w₀ w (withdrawn ++ v :: views))
    (childContext : ContextId) (length position : Nat) (item : Value) (reference : NodeId) :
    S.Leads (do
        let context ← itemContext childContext position length
        let bound ← attempt <| holdingViews (withdrawn ++ views) do
          Machine.call (.unbindView v)
          Machine.call (.bindView v item context)
        insertViewBefore v reference
        return ((withdrawn, views.take position ++ v :: views.drop position), bound) :
          Machine ((List ViewId × List ViewId) × Except Error Unit)) w fun r w' =>
      ∃ withdrawn' views' outcome, r = .ok ((withdrawn', views'), outcome) ∧
        Stock w₀ w' (withdrawn' ++ views') := by
  have hv : v ∈ withdrawn ++ v :: views := by simp
  refine (itemContext_spare h.toOwn childContext position length).bind
    (fun e _ ⟨_, he, _⟩ => absurd he nofun) ?_
  rintro c w₁ ⟨_, ⟨⟩, hr₁, hw₁, hc, -⟩
  have h₁ := h.later hr₁ hw₁
  have hc₁ : ∀ held : List Held, Spare w₀ { w₁ with held } (withdrawn ++ v :: views) c := by
    intro held
    have he : w₁.EasesBut (fun _ => False) { w₁ with held } := .of_eq rfl rfl rfl rfl
    exact hc.later he.leaves fun _ _ hu => hu
  refine (Leads.within (rebindView_attends (h₁.toOwn.held _) hv (hc₁ _) item)).attempt_bind ?_
  rintro bound _ ⟨w₂, rfl, ht, hcontext, -⟩
  have h₂ : Stock w₀ w₂ (withdrawn ++ v :: views) := by
    refine (h₁.held _).attended ht fun d hd hm => ?_
    obtain rfl := Option.some.inj (hcontext.symm.trans hd)
    exact absurd hm hc.new
  refine Leads.bind (Leads.ran (Agrees.agreesAt (h₂.held w₁.held).sole)) (fun e w₃ h₃ => ?_)
    fun _ w₃ h₃ => ?_
  · obtain ⟨_, he⟩ := Firm.ok h₃.2
    exact absurd he nofun
  · refine .of_eq (fun _ => rfl) ⟨_, _, _, rfl, ?_⟩
    refine ((h₂.held w₁.held).later h₃.1.1 h₃.1.2).perm (List.Perm.append_left withdrawn ?_)
    have hp : (views.take position ++ v :: views.drop position).Perm
        (v :: (views.take position ++ views.drop position)) := List.perm_middle
    rwa [List.take_append_drop] at hp

/-- **One item is given a view.** -/
theorem addView_stock {withdrawn : List ViewId} (h : Stock w₀ w (withdrawn ++ views))
    (location : NodeId) (template : TemplateId) (childContext : ContextId) (length position : Nat)
    (item : Value) :
    S.Leads (addView location template childContext length position item withdrawn views) w
      fun r w' => ∃ withdrawn' views' outcome, r = .ok ((withdrawn', views'), outcome) ∧
        Stock w₀ w' (withdrawn' ++ views') := by
  unfold addView
  extract_lets place
  have hplace : ∀ reference, S.Leads (place reference) w fun r w' =>
      ∃ withdrawn' views' outcome, r = .ok ((withdrawn', views'), outcome) ∧
        Stock w₀ w' (withdrawn' ++ views') := by
    intro reference
    cases withdrawn with
    | cons v rest =>
      have hp : (rest ++ v :: views).Perm (v :: rest ++ views) := List.perm_middle
      exact seatView_stock (h.perm hp) childContext length position item reference
    | nil =>
      refine (createView_own h.toOwn template).attempt_bind fun outcome w₁ ⟨hr₁, hw₁, hv⟩ => ?_
      have h₁ := h.later hr₁ hw₁
      cases outcome with
      | error e => exact .of_eq (fun _ => rfl) ⟨[], views, .error e, rfl, h₁⟩
      | ok v =>
        obtain ⟨hown, -, hnone⟩ := hv v rfl
        have hs : Stock w₀ w₁ ([] ++ v :: views) := by
          refine ⟨hown, fun {u} hu => ?_⟩
          obtain rfl | hu := List.mem_cons.mp hu
          · exact fun c hc => absurd (hnone.symm.trans hc) nofun
          · exact h₁.resting hu
        exact seatView_stock hs childContext length position item reference
  split
  · exact Leads.read (hplace _)
  · exact hplace location

theorem addViews_stock {withdrawn : List ViewId} {position : Nat} {items : List Value}
    (h : Stock w₀ w (withdrawn ++ views)) (location : NodeId) (template : TemplateId)
    (childContext : ContextId) (length : Nat) :
    S.Leads (addViews location template childContext length position items withdrawn views) w
      fun r w' => ∃ withdrawn' views' outcome, r = .ok ((withdrawn', views'), outcome) ∧
        Stock w₀ w' (withdrawn' ++ views') := by
  induction items generalizing withdrawn views position w with
  | nil => exact .of_eq (fun _ => rfl) ⟨withdrawn, views, .ok (), rfl, h⟩
  | cons item items ih =>
    unfold addViews
    refine (addView_stock h location template childContext length position item).bind
      (fun e _ ⟨_, _, _, h, _⟩ => absurd h nofun) ?_
    rintro _ w₁ ⟨withdrawn₁, views₁, outcome, ⟨⟩, h₁⟩
    cases outcome with
    | error e => exact .of_eq (fun _ => rfl) ⟨withdrawn₁, views₁, .error e, rfl, h₁⟩
    | ok u => exact ih h₁

/-- **Splices are carried out.** Nobody is moved by that. -/
theorem applySplices_stock {withdrawn : List ViewId} {splices : List Splice}
    (h : Stock w₀ w (withdrawn ++ views)) (s : RepeatState) (template : TemplateId)
    (childContext : ContextId) (length : Nat) :
    S.Leads (applySplices s template childContext length splices withdrawn views) w fun r w' =>
      ∃ withdrawn' views' outcome, r = .ok ((withdrawn', views'), outcome) ∧
        Stock w₀ w' (withdrawn' ++ views') := by
  induction splices generalizing withdrawn views w with
  | nil => exact .of_eq (fun _ => rfl) ⟨withdrawn, views, .ok (), rfl, h⟩
  | cons splice splices ih =>
    unfold applySplices
    extract_lets start taken kept withdrawn₁
    have hperm : (taken ++ kept).Perm views :=
      Around.perm_taken_kept start splice.removed.length views
    have hall : (withdrawn ++ (taken ++ kept)).Perm (withdrawn ++ views) := hperm.append_left withdrawn
    have htaken : ∀ v ∈ taken, v ∈ withdrawn ++ views := fun v hv =>
      List.mem_append_right _ (hperm.subset (List.mem_append_left _ hv))
    refine (each_held_attends (withdrawView_attends s.options.recycle) htaken h.toOwn _).bind
      (fun e _ h => absurd h.1 nofun) fun _ w₁ ⟨_, hown, _, hrest⟩ => ?_
    have h₁ : Stock w₀ w₁ (withdrawn ++ views) := ⟨hown, fun hv => hrest _ hv (h.resting hv)⟩
    have hkept : Stock w₀ w₁ (withdrawn₁ ++ kept) := by
      unfold withdrawn₁
      split
      · rw [List.append_assoc]
        exact h₁.perm hall
      · exact (h₁.perm hall).sublist
          ((List.sublist_append_right taken kept).append_left withdrawn)
    refine (addViews_stock hkept s.location template childContext length).bind
      (fun e _ ⟨_, _, _, h, _⟩ => absurd h nofun) ?_
    rintro _ w₂ ⟨withdrawn₂, views₂, outcome, ⟨⟩, h₂⟩
    cases outcome with
    | error e => exact .of_eq (fun _ => rfl) ⟨withdrawn₂, views₂, .error e, rfl, h₂⟩
    | ok u => exact ih h₂

end Setting

end ReactiveViews
