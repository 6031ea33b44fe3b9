import ReactiveViews.Proofs.Agreement
/-!
# Creating a view

No call is made on the way, so what `createView` does to a world is the same in every
setting: it adds, and changes nothing that was there (`createView_leads`).
-/

namespace ReactiveViews

namespace Store

variable {kind : Kind} {α : Type} [Inhabited α]

/-- Changing what is new leaves what was there as it was. -/
theorem Grown.modify {s s' : Store kind α} (h : Grown s s') {r : Ref kind}
    (hr : s.size ≤ r.index) (f : α → α) : Grown s (s'.modify r f) where
  size := Nat.le_trans h.size (size_le_modify s' r f)
  get r' hr' := by
    rw [get_modify, if_neg, h.get r' hr']
    rintro rfl
    omega

end Store

namespace Document

/-- From the node numbered `k` on, children come from there on as well, and have been made. -/
def ClosedFrom (k : Nat) (d : Document) : Prop :=
  ∀ m : NodeId, k ≤ m.index → ∀ c ∈ d.children m, k ≤ c.index ∧ c.index < d.size

/-- Nodes that have not been made have no children. -/
theorem closedFrom_size (d : Document) : d.ClosedFrom d.size := by
  intro m hm c hc
  rw [children, d.get_of_size_le hm] at hc
  exact absurd hc List.not_mem_nil

theorem size_le_setChildren (d : Document) (n : NodeId) (children : List NodeId) :
    d.size ≤ (d.setChildren n children).size :=
  Store.size_le_modify _ _ _

theorem size_le_setParent (d : Document) (n : NodeId) (parent : Option NodeId) :
    d.size ≤ (d.setParent n parent).size :=
  Store.size_le_modify _ _ _

theorem ClosedFrom.setChildren {k : Nat} {d : Document} (h : d.ClosedFrom k) (n : NodeId)
    {children : List NodeId} (hc : ∀ c ∈ children, k ≤ c.index ∧ c.index < d.size) :
    (d.setChildren n children).ClosedFrom k := by
  have hs := d.size_le_setChildren n children
  intro m hm c hcm
  rw [Document.children, Document.setChildren, Store.get_modify] at hcm
  split at hcm
  · exact ⟨(hc c hcm).1, Nat.lt_of_lt_of_le (hc c hcm).2 hs⟩
  · exact ⟨(h m hm c hcm).1, Nat.lt_of_lt_of_le (h m hm c hcm).2 hs⟩

theorem ClosedFrom.setParent {k : Nat} {d : Document} (h : d.ClosedFrom k) (n : NodeId)
    (parent : Option NodeId) : (d.setParent n parent).ClosedFrom k := by
  intro m hm c hcm
  have hcm' : c ∈ d.children m := by
    rw [Document.children, Document.setParent, Store.get_modify] at hcm
    split at hcm
    · next he => exact he ▸ hcm
    · exact hcm
  exact ⟨(h m hm c hcm').1, Nat.lt_of_lt_of_le (h m hm c hcm').2 (d.size_le_setParent n parent)⟩

theorem ClosedFrom.create {k : Nat} {d : Document} (h : d.ClosedFrom k) (c : Content) :
    (d.create c).2.ClosedFrom k := by
  intro m hm x hx
  rw [children, Document.create] at hx
  by_cases he : m = (d.add (Node.ofContent c)).1
  · rw [he, Store.get_add_self] at hx
    exact absurd hx List.not_mem_nil
  · rw [Store.get_add_of_ne _ _ _ he] at hx
    exact ⟨(h m hm x hx).1, Nat.lt_of_lt_of_le (h m hm x hx).2 (Store.Grown.add d _).size⟩

theorem grown_setChildren {d d' : Document} (h : d.Grown d') {n : NodeId} (hn : d.size ≤ n.index)
    (children : List NodeId) : d.Grown (d'.setChildren n children) :=
  Store.Grown.modify h hn _

theorem grown_setParent {d d' : Document} (h : d.Grown d') {n : NodeId} (hn : d.size ≤ n.index)
    (parent : Option NodeId) : d.Grown (d'.setParent n parent) :=
  Store.Grown.modify h hn _

theorem plant_node (d : Document) (c : Content) (ts : List Tree) :
    d.plant (.node c ts) = ((d.create c).1,
      (plantAll (d.create c).2 (d.create c).1 ts).2.setChildren (d.create c).1
        (plantAll (d.create c).2 (d.create c).1 ts).1) := by
  rw [plant]

theorem plantAll_cons (d : Document) (parent : NodeId) (t : Tree) (ts : List Tree) :
    d.plantAll parent (t :: ts) =
      ((d.plant t).1 :: (plantAll ((d.plant t).2.setParent (d.plant t).1 (some parent)) parent ts).1,
        (plantAll ((d.plant t).2.setParent (d.plant t).1 (some parent)) parent ts).2) := by
  rw [plantAll]

/-- A new node has been made. -/
theorem lt_of_create (d : Document) (c : Content) : (d.create c).1.index < (d.create c).2.size := by
  rw [create, Store.size_add]
  exact Nat.lt_succ_self _

mutual

/-- A tree that is planted changes nothing that was there, and is made of new nodes. -/
theorem plant_grown (d : Document) (t : Tree) :
    d.Grown (d.plant t).2 ∧
      (d.size ≤ (d.plant t).1.index ∧ (d.plant t).1.index < (d.plant t).2.size) ∧
        ∀ k ≤ d.size, d.ClosedFrom k → (d.plant t).2.ClosedFrom k := by
  cases t with
  | node c ts =>
    have hadd : d.Grown (d.create c).2 := .add d _
    have hn : d.size ≤ (d.create c).1.index := Nat.le_refl _
    obtain ⟨hg, hi, hc⟩ := plantAll_grown (d.create c).2 (d.create c).1 ts
    rw [plant_node]
    refine ⟨grown_setChildren (hadd.trans hg) hn _, ⟨hn, ?_⟩, fun k hk hd => ?_⟩
    · exact Nat.lt_of_lt_of_le (Nat.lt_of_lt_of_le (d.lt_of_create c) hg.size)
        (size_le_setChildren _ _ _)
    · have hs : k ≤ (d.create c).2.size := Nat.le_trans hk hadd.size
      exact (hc k hs (hd.create c)).setChildren _ fun x hx =>
        ⟨Nat.le_trans hs (hi x hx).1, (hi x hx).2⟩

theorem plantAll_grown (d : Document) (parent : NodeId) (ts : List Tree) :
    d.Grown (d.plantAll parent ts).2 ∧
      (∀ n ∈ (d.plantAll parent ts).1,
        d.size ≤ n.index ∧ n.index < (d.plantAll parent ts).2.size) ∧
        ∀ k ≤ d.size, d.ClosedFrom k → (d.plantAll parent ts).2.ClosedFrom k := by
  cases ts with
  | nil =>
    rw [plantAll]
    exact ⟨.refl d, fun n hn => absurd hn List.not_mem_nil, fun _ _ hd => hd⟩
  | cons t ts =>
    obtain ⟨hg, hi, hc⟩ := plant_grown d t
    have hg' := grown_setParent hg hi.1 (some parent)
    obtain ⟨hgs, his, hcs⟩ :=
      plantAll_grown ((d.plant t).2.setParent (d.plant t).1 (some parent)) parent ts
    rw [plantAll_cons]
    refine ⟨hg'.trans hgs, fun n hn => ?_, fun k hk hd => ?_⟩
    · rcases List.mem_cons.mp hn with rfl | hn
      · exact ⟨hi.1, Nat.lt_of_lt_of_le
          (Nat.lt_of_lt_of_le hi.2 (size_le_setParent _ _ _)) hgs.size⟩
      · exact ⟨Nat.le_trans hg'.size (his n hn).1, (his n hn).2⟩
    · exact hcs k (Nat.le_trans hk hg'.size) ((hc k hk hd).setParent _ _)

end

/-- A path from a made node numbered `k` or later leads to such a node. -/
theorem between_of_resolve {k : Nat} {d : Document} (hd : d.ClosedFrom k) {path : Path}
    {root n : NodeId} (hr : k ≤ root.index ∧ root.index < d.size)
    (h : path.resolve d root = some n) : k ≤ n.index ∧ n.index < d.size := by
  induction path generalizing root with
  | nil =>
    cases h
    exact hr
  | cons index path ih =>
    rw [Path.resolve, Option.bind_eq_some_iff] at h
    obtain ⟨c, hc, hn⟩ := h
    exact ih (hd root hr.1 c (List.mem_of_getElem? hc)) hn

/-- Putting a new node of its own at the end of a new node changes nothing that was there. -/
theorem grown_append_create {d d' : Document} (h : d.Grown d') {parent : NodeId}
    (hp : d.size ≤ parent.index) (c : Content) (hc : c.kind ≠ .fragment) :
    d.Grown ((d'.create c).2.append parent (d'.create c).1) ∧
      d'.size ≤ ((d'.create c).2.append parent (d'.create c).1).size := by
  have hn : (d'.create c).2.get (d'.create c).1 = Node.ofContent c := Store.get_add_self _ _
  have hi : d.size ≤ (d'.create c).1.index := h.size
  have hu : (d'.create c).2.uproot (d'.create c).1 = ([(d'.create c).1], (d'.create c).2) := by
    rw [uproot, if_neg, detach, parent?, hn]
    · rfl
    · rw [kind, content, hn]
      exact hc
  have hs : d'.size ≤ (d'.create c).2.size := (Store.Grown.add d' _).size
  have hg : d.Grown (d'.create c).2 := h.trans (.add d' _)
  unfold append insertBefore
  split
  · exact ⟨hg, hs⟩
  · rw [hu]
    refine ⟨grown_setChildren (grown_setParent hg hi (some parent)) hp _, ?_⟩
    exact Nat.le_trans hs (Nat.le_trans (size_le_setParent _ _ _) (size_le_setChildren _ _ _))

end Document

namespace World

namespace Created

theorem refl (w : World) : Created w w where
  rest := rfl
  document := .refl _
  edited := .refl
  observers := .refl _
  behaviors := .refl _
  views := .refl _
  newObserver o ho := by
    have hd := w.observers.get_of_size_le ho
    exact ⟨by rw [hd]; rfl, by rw [hd]; rfl, fun b hb => by rw [hd] at hb; cases hb⟩
  newBehavior b hb := by
    have hd : w.behavior b = .probe default := by
      rw [behavior, w.behaviors.get_of_size_le hb]
      rfl
    exact ⟨by rw [hd]; rfl, fun o ho => by rw [hd] at ho; exact absurd ho List.not_mem_nil,
      fun s hs => (by cases hd.symm.trans hs), fun s hs => (by cases hd.symm.trans hs)⟩
  isOwned b hb hb' := absurd hb' (Nat.not_lt.mpr hb)
  newView v hv := by
    have hd := w.views.get_of_size_le hv
    exact ⟨by rw [hd]; rfl, by rw [hd]; rfl, by rw [hd]; exact List.nodup_nil,
      fun b hb => by rw [hd] at hb; exact absurd hb List.not_mem_nil⟩
  size_views := Nat.le_succ _
  unheard _ := .of_eq rfl rfl rfl

variable {w x : World}

theorem log (h : Created w x) {entries : List LogEntry}
    (hu : ∀ name, x.Unheard name { x with log := entries }) : Created w { x with log := entries } where
  rest := by rw [h.rest]
  document := h.document
  edited := h.edited
  observers := h.observers
  behaviors := h.behaviors
  views := h.views
  newObserver o ho := ⟨(h.newObserver o ho).1, (h.newObserver o ho).2, (h.newObserver o ho).3⟩
  newBehavior b hb := ⟨(h.newBehavior b hb).1, (h.newBehavior b hb).2, (h.newBehavior b hb).3,
    (h.newBehavior b hb).4⟩
  isOwned := h.isOwned
  newView v hv := ⟨(h.newView v hv).1, (h.newView v hv).2, (h.newView v hv).3, (h.newView v hv).4⟩
  size_views := h.size_views
  unheard name := (h.unheard name).trans (hu name)

theorem edit (h : Created w x) {document : Document} (hd : w.document.Grown document)
    (he : x.document.Edited document) (hs : x.document.size ≤ document.size)
    (hl : ∀ n, (document.get n).listeners = (x.document.get n).listeners) :
    Created w { x with document } where
  rest := by rw [h.rest]
  document := hd
  edited := h.edited.trans he
  observers := h.observers
  behaviors := h.behaviors
  views := h.views
  newObserver o ho := ⟨(h.newObserver o ho).1, (h.newObserver o ho).2, (h.newObserver o ho).3⟩
  newBehavior b hb := ⟨(h.newBehavior b hb).1, (h.newBehavior b hb).2, fun s hs' =>
      have ht := (h.newBehavior b hb).3 s hs'
      ⟨ht.1, ht.2.1, Nat.lt_of_lt_of_le ht.2.2 hs⟩,
    (h.newBehavior b hb).4⟩
  isOwned := h.isOwned
  newView v hv := ⟨(h.newView v hv).1, (h.newView v hv).2, (h.newView v hv).3, (h.newView v hv).4⟩
  size_views := h.size_views
  unheard name := (h.unheard name).trans (unheard_document (Document.noneJoin_of_same hl))

/-- A behavior is made on a new node. -/
theorem addBehavior (h : Created w x) {b : Behavior} (hb : b.bare = b) (ho : b.observers = [])
    (hs : ∀ s, b = .binding s → w.document.size ≤ s.target.index ∧ s.target.index < x.document.size)
    (hr : ∀ s, b ≠ .repeated s) : Created w (x.withBehavior b) where
  rest := by
    unfold withBehavior
    rw [h.rest]
  document := h.document
  edited := h.edited
  observers := h.observers
  behaviors := h.behaviors.trans (.add _ _)
  views := h.views
  newObserver o ho := ⟨(h.newObserver o ho).1, (h.newObserver o ho).2, fun b' hb' => by
    obtain ⟨hle, s, hs⟩ := (h.newObserver o ho).3 b' hb'
    refine ⟨hle, s, ?_⟩
    dsimp only [behavior, withBehavior]
    rw [(Store.Grown.add x.behaviors _).get b' (lt_of_repeated hs)]
    exact hs⟩
  newBehavior b' hb' := by
    by_cases he : b' = (x.behaviors.add ⟨b, true⟩).1
    · subst he
      constructor <;> dsimp only [behavior, withBehavior] <;> rw [Store.get_add_self]
      · exact hb
      · simp [ho]
      · rintro s rfl
        exact ⟨by simpa [Behavior.observers] using ho, hs s rfl⟩
      · exact fun s h => absurd h (hr s)
    · obtain ⟨h1, h2, h3, h4⟩ := h.newBehavior b' hb'
      constructor <;> dsimp only [behavior, withBehavior] <;> rw [Store.get_add_of_ne _ _ _ he]
      · exact h1
      · exact h2
      · exact h3
      · exact h4
  isOwned b' hb' hlt := by
    dsimp only [withBehavior] at hlt ⊢
    rw [Store.size_add] at hlt
    by_cases he : b' = (x.behaviors.add ⟨b, true⟩).1
    · rw [he, Store.get_add_self]
    · rw [Store.get_add_of_ne _ _ _ he]
      refine h.isOwned b' hb' (Nat.lt_of_le_of_ne (Nat.le_of_lt_succ hlt) fun hi => he ?_)
      obtain ⟨i⟩ := b'
      exact congrArg Ref.mk hi
  newView v hv := ⟨(h.newView v hv).1, (h.newView v hv).2, (h.newView v hv).3, fun b' hb' =>
    ⟨((h.newView v hv).4 b' hb').1, by
      dsimp only [withBehavior]
      rw [Store.size_add]
      exact Nat.lt_succ_of_lt ((h.newView v hv).4 b' hb').2⟩⟩
  size_views := h.size_views
  unheard name := (h.unheard name).trans (.of_eq rfl rfl rfl)

/-- A repeat is made on a new node, together with its two observers. -/
theorem addRepeat (h : Created w x) {s : RepeatState} {items template : ObserverState}
    (hb : (Behavior.repeated s).bare = .repeated s) (hl : w.document.size ≤ s.location.index)
    (hi : s.itemsObserver = ⟨x.observers.size⟩)
    (ht : s.templateObserver = ⟨x.observers.size + 1⟩)
    (hir : items.records = [] ∧ items.needsQueue = true ∧
      items.reaction.behavior? = some ⟨x.behaviors.size⟩)
    (htr : template.records = [] ∧ template.needsQueue = true ∧
      template.reaction.behavior? = some ⟨x.behaviors.size⟩) :
    Created w (((x.withObserver items).withObserver template).withBehavior (.repeated s)) := by
  let x' := ((x.withObserver items).withObserver template).withBehavior (.repeated s)
  have hio : x'.observers.get ⟨x.observers.size⟩ = items := by
    show ((x.observers.add items).2.add template).2.get ⟨x.observers.size⟩ = items
    rw [(Store.Grown.add _ _).get ⟨x.observers.size⟩
      (by rw [Store.size_add]; exact Nat.lt_succ_self _)]
    exact Store.get_add_self x.observers items
  have hto : x'.observers.get ⟨x.observers.size + 1⟩ = template := by
    have hs : (⟨x.observers.size + 1⟩ : ObserverId) = ((x.observers.add items).2.add template).1 :=
      congrArg Ref.mk (Store.size_add x.observers items).symm
    rw [hs]
    exact Store.get_add_self (x.observers.add items).2 template
  have hbn : x'.behavior ⟨x.behaviors.size⟩ = .repeated s :=
    congrArg BehaviorCell.behavior (Store.get_add_self x.behaviors _)
  -- what is neither of the two observers nor the repeat is as it was
  have hoo : ∀ o : ObserverId, o ≠ ⟨x.observers.size⟩ → o ≠ ⟨x.observers.size + 1⟩ →
      x'.observers.get o = x.observers.get o := by
    intro o h1 h2
    show ((x.observers.add items).2.add template).2.get o = _
    rw [Store.get_add_of_ne, Store.get_add_of_ne]
    · exact h1
    · exact fun he => h2 (he.trans (congrArg Ref.mk (Store.size_add x.observers items)))
  have hbo : ∀ b : BehaviorId, b ≠ ⟨x.behaviors.size⟩ → x'.behaviors.get b = x.behaviors.get b :=
    fun b hb => Store.get_add_of_ne _ _ _ hb
  have hsize : x'.behaviors.size = x.behaviors.size + 1 := Store.size_add _ _
  have hx : w.observers.size ≤ x.observers.size := h.observers.size
  refine ⟨?_, h.document, h.edited, ?_, ?_, h.views, fun o ho => ?_, fun b hb' => ?_, fun b hb' hlt => ?_,
    fun v hv => ?_, h.size_views,
    fun name => (h.unheard name).trans (.of_eq rfl rfl rfl)⟩
  · unfold withBehavior withObserver
    rw [h.rest]
  · exact h.observers.trans ((Store.Grown.add _ _).trans (.add _ _))
  · exact h.behaviors.trans (.add _ _)
  · have hnew : w.behaviors.size ≤ x.behaviors.size ∧ ∃ s, x'.behavior ⟨x.behaviors.size⟩ = .repeated s :=
      ⟨h.behaviors.size, s, hbn⟩
    by_cases h1 : o = ⟨x.observers.size⟩
    · subst h1
      refine ⟨by rw [hio]; exact hir.1, by rw [hio]; exact hir.2.1, fun b hb => ?_⟩
      rw [hio, hir.2.2] at hb
      cases hb
      exact hnew
    · by_cases h2 : o = ⟨x.observers.size + 1⟩
      · subst h2
        refine ⟨by rw [hto]; exact htr.1, by rw [hto]; exact htr.2.1, fun b hb => ?_⟩
        rw [hto, htr.2.2] at hb
        cases hb
        exact hnew
      · obtain ⟨h3, h4, h5⟩ := h.newObserver o ho
        refine ⟨by rw [hoo o h1 h2]; exact h3, by rw [hoo o h1 h2]; exact h4, fun b hb => ?_⟩
        rw [hoo o h1 h2] at hb
        obtain ⟨hle, s', hs'⟩ := h5 b hb
        refine ⟨hle, s', ?_⟩
        rw [behavior, hbo b fun he => ?_]
        · exact hs'
        · have hlt := lt_of_repeated hs'
          rw [he] at hlt
          exact absurd hlt (Nat.lt_irrefl _)
  · by_cases he : b = ⟨x.behaviors.size⟩
    · subst he
      refine ⟨by rw [hbn]; exact hb, fun o ho => ?_, fun s' hs' => ?_, fun s' hs' => ?_⟩
      · rw [hbn, Behavior.observers, hi, ht] at ho
        rcases List.mem_cons.mp ho with rfl | ho
        · exact ⟨hx, by rw [hio]; exact hir.2.2⟩
        · rw [List.mem_singleton.mp ho]
          exact ⟨Nat.le_succ_of_le hx, by rw [hto]; exact htr.2.2⟩
      · rw [hbn] at hs'
        cases hs'
      · rw [hbn] at hs'
        cases hs'
        exact hl
    · have hbe : x'.behavior b = x.behavior b := congrArg BehaviorCell.behavior (hbo b he)
      obtain ⟨h1, h2, h3, h4⟩ := h.newBehavior b hb'
      refine ⟨by rw [hbe]; exact h1, fun o ho => ?_, by rw [hbe]; exact h3, by rw [hbe]; exact h4⟩
      rw [hbe] at ho
      obtain ⟨hle, hr⟩ := h2 o ho
      -- who calls back a behavior has been made already
      have hlt := lt_of_behavior? hr
      refine ⟨hle, ?_⟩
      rw [hoo o, hr]
      · rintro rfl
        exact absurd hlt (Nat.lt_irrefl _)
      · rintro rfl
        exact absurd hlt (Nat.not_lt.mpr (Nat.le_succ _))
  · by_cases he : b = ⟨x.behaviors.size⟩
    · subst he
      exact congrArg BehaviorCell.isOwned (Store.get_add_self x.behaviors _)
    · rw [hbo b he]
      rw [hsize] at hlt
      refine h.isOwned b hb' (Nat.lt_of_le_of_ne (Nat.le_of_lt_succ hlt) fun hi => he ?_)
      obtain ⟨i⟩ := b
      exact congrArg Ref.mk hi
  · obtain ⟨h1, h2, h3, h4⟩ := h.newView v hv
    refine ⟨h1, h2, h3, fun b hb => ⟨(h4 b hb).1, ?_⟩⟩
    rw [hsize]
    exact Nat.lt_succ_of_lt (h4 b hb).2

/-- The view itself is entered. -/
theorem addView (h : Created w x) (hv : x.views = w.views) {s : ViewState}
    (hs : s.source = none) (hc : s.context = none) (hn : s.behaviors.Nodup)
    (hb : ∀ b ∈ s.behaviors, w.behaviors.size ≤ b.index ∧ b.index < x.behaviors.size) :
    Created w (x.withView s) where
  rest := by
    unfold withView
    rw [h.rest]
  document := h.document
  edited := h.edited
  observers := h.observers
  behaviors := h.behaviors
  views := h.views.trans (.add _ _)
  newObserver o ho := ⟨(h.newObserver o ho).1, (h.newObserver o ho).2, (h.newObserver o ho).3⟩
  newBehavior b hb := ⟨(h.newBehavior b hb).1, (h.newBehavior b hb).2, (h.newBehavior b hb).3,
    (h.newBehavior b hb).4⟩
  isOwned := h.isOwned
  newView v hv' := by
    by_cases he : v = (x.views.add s).1
    · subst he
      constructor <;> dsimp only [withView] <;> rw [Store.get_add_self]
      · exact hs
      · exact hc
      · exact hn
      · exact hb
    · obtain ⟨h1, h2, h3, h4⟩ := h.newView v hv'
      constructor <;> dsimp only [withView] <;> rw [Store.get_add_of_ne _ _ _ he]
      · exact h1
      · exact h2
      · exact h3
      · exact h4
  size_views := by
    dsimp only [withView]
    exact Nat.le_of_eq (by rw [Store.size_add, hv])
  unheard name := (h.unheard name).trans (.of_eq rfl rfl rfl)

end Created

end World

namespace Setting

open Machine

variable {α : Type} {G : Regime} {S : Setting G}

/-- What is on the way to a new view: things have been added, but no view yet. -/
def Making (w x : World) : Prop := World.Created w x ∧ x.views = w.views

theorem recordMutation_apply (m : Mutation) (calls : Calls) (w : World) :
    recordMutation m calls w = some (.ok (), { w with
      log := if w.hostMode = .recording then .mutation m (w.showMutation m) :: w.log else w.log }) := by
  unfold recordMutation
  rw [bind_apply, get_apply]
  dsimp only
  split
  · rfl
  · rfl

theorem cloneFragment_apply (fragment : NodeId) (calls : Calls) (w : World) :
    cloneFragment fragment calls w = some (.ok (w.document.clone fragment).1, { w with
      log := if w.hostMode = .recording then
          .mutation (.clone fragment) (w.showMutation (.clone fragment)) :: w.log
        else w.log
      document := (w.document.clone fragment).2 }) := by
  unfold cloneFragment
  rw [bind_apply, recordMutation_apply]
  rfl

theorem resolveTargets_leads {k : Nat} {fragment : NodeId} {w : World}
    (hw : w.document.ClosedFrom k) (hf : k ≤ fragment.index ∧ fragment.index < w.document.size)
    (directives : List (Path × Directive)) :
    S.Leads (resolveTargets fragment directives) w fun r w' =>
      w' = w ∧ ∀ ts, r = .ok ts → ∀ t ∈ ts, k ≤ t.1.index ∧ t.1.index < w.document.size := by
  induction directives with
  | nil =>
    rw [resolveTargets]
    exact .of_eq (fun _ => rfl) ⟨rfl, fun ts h t ht => by cases h; exact absurd ht List.not_mem_nil⟩
  | cons entry directives ih =>
    obtain ⟨path, d⟩ := entry
    rw [resolveTargets]
    refine Leads.read (g := id) ?_
    dsimp only [id]
    split
    · next n hn =>
      refine ih.bind (fun e w' h => ⟨h.1, nofun⟩) ?_
      rintro ts w' ⟨rfl, hts⟩
      refine .of_eq (fun _ => rfl) ⟨rfl, fun ts' h t ht => ?_⟩
      cases h
      rcases List.mem_cons.mp ht with rfl | ht
      · exact Document.between_of_resolve hw hf hn
      · exact hts ts rfl t ht
    · exact .of_eq (fun _ => rfl) ⟨rfl, nofun⟩

/-- A behavior has been made, or nothing but the log has changed. -/
def Makes (w x : World) (r : Except Error BehaviorId) (x' : World) : Prop :=
  Making w x' ∧ x'.document = x.document ∧ x.behaviors.size ≤ x'.behaviors.size ∧
    ∀ b, r = .ok b → x.behaviors.size ≤ b.index ∧ b.index < x'.behaviors.size

theorem newBehavior_apply (b : Behavior) (calls : Calls) (x : World) :
    newBehavior b calls x = some (.ok ⟨x.behaviors.size⟩, x.withBehavior b) := rfl

theorem newRepeat_apply (location : NodeId) (items template : Binding) (options : RepeatOptions)
    (calls : Calls) (x : World) :
    newRepeat location items template options calls x =
      some (.ok ⟨x.behaviors.size⟩,
        ((x.withObserver (.made items.evaluator items.isVolatile (.itemsChanged ⟨x.behaviors.size⟩))
          ).withObserver (.made template.evaluator template.isVolatile
            (.templateChanged ⟨x.behaviors.size⟩))).withBehavior
          (.repeated
            { location, options, itemsObserver := ⟨x.observers.size⟩
              templateObserver := ⟨(x.observers.add (.made items.evaluator items.isVolatile
                (.itemsChanged ⟨x.behaviors.size⟩))).2.size⟩
              bound := none, items := none, itemsNotifier := none, template := none
              views := [] })) := rfl

theorem size_withBehavior (x : World) (b : Behavior) :
    (x.withBehavior b).behaviors.size = x.behaviors.size + 1 :=
  Store.size_add _ _

theorem makes_behavior {w x : World} (h : Making w x) {b : Behavior} (hb : b.bare = b)
    (ho : b.observers = [])
    (hs : ∀ s, b = .binding s → w.document.size ≤ s.target.index ∧ s.target.index < x.document.size)
    (hr : ∀ s, b ≠ .repeated s) : S.Leads (newBehavior b) x (Makes w x) := by
  refine .of_eq (fun calls => newBehavior_apply b calls x)
    ⟨⟨h.1.addBehavior hb ho hs hr, h.2⟩, rfl, ?_, ?_⟩
  · rw [size_withBehavior]
    exact Nat.le_succ _
  · rintro b ⟨⟩
    rw [size_withBehavior]
    exact ⟨Nat.le_refl _, Nat.lt_succ_self _⟩

theorem makes_repeat {w x : World} (h : Making w x) {location : NodeId}
    (hl : w.document.size ≤ location.index) (items template : Binding)
    (options : RepeatOptions) :
    S.Leads (newRepeat location items template options) x (Makes w x) := by
  refine .of_eq (fun calls => newRepeat_apply location items template options calls x)
    ⟨⟨h.1.addRepeat rfl hl rfl ?_ ⟨rfl, rfl, rfl⟩ ⟨rfl, rfl, rfl⟩, h.2⟩, rfl, ?_, ?_⟩
  · exact congrArg Ref.mk (Store.size_add _ _)
  · rw [size_withBehavior]
    exact Nat.le_succ _
  · rintro b ⟨⟩
    rw [size_withBehavior]
    exact ⟨Nat.le_refl _, Nat.lt_succ_self _⟩

theorem createBehavior_leads {w x : World} (h : Making w x) {target : NodeId}
    (ht : w.document.size ≤ target.index ∧ target.index < x.document.size) (d : Directive) :
    S.Leads (createBehavior target d) x (Makes w x) := by
  unfold createBehavior
  split
  · refine makes_behavior h ?_ ?_ ?_ ?_
    · rfl
    · rfl
    · simp
    · simp
  · refine makes_behavior h ?_ ?_ ?_ ?_
    · rfl
    · rfl
    · rintro s ⟨⟩
      exact ht
    · simp
  · exact makes_repeat h ht.1 _ _ _
  · have hlog : ∀ {entry : LogEntry}, (∀ name, entry.isCallOf name = false) →
        Making w { x with log := entry :: x.log } :=
      fun he => ⟨h.1.log fun name => World.unheard_log (he name) x, h.2⟩
    refine Leads.read (g := id) ?_
    refine (Leads.of_eq (fun _ => rfl) ⟨rfl, rfl⟩ : S.Leads (logEntry _) x fun r x' =>
      r = .ok () ∧ x' = _).bind (by simp) ?_
    rintro _ x' ⟨-, rfl⟩
    split
    · exact .of_eq (fun _ => rfl) ⟨hlog fun _ => rfl, rfl, Nat.le_refl _, nofun⟩
    · exact makes_behavior (hlog fun _ => rfl) rfl rfl (by simp) (by simp)

theorem collect_createBehavior_leads {w x : World} (h : Making w x)
    {targets : List (NodeId × Directive)}
    (ht : ∀ t ∈ targets, w.document.size ≤ t.1.index ∧ t.1.index < x.document.size) :
    S.Leads (collect (fun (target, d) => createBehavior target d) targets) x fun r x' =>
      Making w x' ∧ x.behaviors.size ≤ x'.behaviors.size ∧ ∀ bs, r = .ok bs → bs.Nodup ∧
        ∀ b ∈ bs, x.behaviors.size ≤ b.index ∧ b.index < x'.behaviors.size := by
  induction targets generalizing x with
  | nil =>
    rw [collect]
    refine .of_eq (fun _ => rfl) ⟨h, Nat.le_refl _, ?_⟩
    rintro bs ⟨⟩
    exact ⟨List.nodup_nil, fun b hb => absurd hb List.not_mem_nil⟩
  | cons t targets ih =>
    rw [collect]
    refine (createBehavior_leads h (ht t (List.mem_cons_self ..)) t.2).bind
      (fun e x' h => ⟨h.1, h.2.2.1, by simp⟩) fun b x₁ h₁ => ?_
    obtain ⟨hm₁, hd₁, hs₁, hb₁⟩ := h₁
    have hb := hb₁ b rfl
    refine (ih hm₁ fun t ht' => by rw [hd₁]; exact ht t (List.mem_cons_of_mem _ ht')).bind
      (fun e x' h => ⟨h.1, Nat.le_trans hs₁ h.2.1, by simp⟩) fun bs x₂ h₂ => ?_
    obtain ⟨hm₂, hs₂, hbs₂⟩ := h₂
    obtain ⟨hn, hbs⟩ := hbs₂ bs rfl
    refine .of_eq (fun _ => rfl) ⟨hm₂, Nat.le_trans hs₁ hs₂, ?_⟩
    rintro _ ⟨⟩
    refine ⟨List.nodup_cons.mpr ⟨fun hm => ?_, hn⟩, fun b' hb' => ?_⟩
    · exact absurd (hbs b hm).1 (Nat.not_le.mpr hb.2)
    · rcases List.mem_cons.mp hb' with rfl | hb'
      · exact ⟨hb.1, Nat.lt_of_lt_of_le hb.2 hs₂⟩
      · exact ⟨Nat.le_trans hs₁ (hbs b' hb').1, (hbs b' hb').2⟩

theorem viewEnds_leads {w x : World} (h : Making w x) {fragment : NodeId}
    (hf : w.document.size ≤ fragment.index) :
    S.Leads (viewEnds fragment) x fun _ x' => Making w x' ∧ x'.behaviors = x.behaviors := by
  unfold viewEnds
  refine .read ?_
  split
  · exact .of_eq (fun _ => rfl) ⟨h, rfl⟩
  · obtain ⟨hg, hs⟩ := Document.grown_append_create h.1.document hf (.text "") nofun
    have he : x.document.Edited ((x.document.create (.text "")).2.append fragment
        (x.document.create (.text "")).1) :=
      .tail (.single (.create _ _)) (.move (.insert _ _ _ none))
    have hl : ∀ n, (((x.document.create (.text "")).2.append fragment
        (x.document.create (.text "")).1).get n).listeners = (x.document.get n).listeners := fun n => by
      rw [Document.append, Document.listeners_insertBefore, Document.listeners_create]
    exact .of_eq (fun _ => rfl) ⟨⟨h.1.edit hg he hs hl, h.2⟩, rfl⟩

/-- **Creating a view adds**, and changes nothing that was there. -/
theorem createView_leads (t : TemplateId) (w : World) :
    S.Leads (createView t) w fun r w' => World.Created w w' ∧
      ∀ v, r = .ok v → v.index = w.views.size ∧ v.index < w'.views.size := by
  unfold createView
  refine .read ?_
  have hclone : S.Leads (cloneFragment (w.templates.get t).fragment) w fun r x =>
      ∃ n, r = .ok n ∧ Making w x ∧ x.behaviors = w.behaviors ∧
        (w.document.size ≤ n.index ∧ n.index < x.document.size) ∧
          x.document.ClosedFrom w.document.size := by
    obtain ⟨hg, hi, hc⟩ := Document.plant_grown w.document
      (w.document.tree (w.templates.get t).fragment)
    refine .of_eq (fun calls => cloneFragment_apply _ calls w) ⟨_, rfl, ⟨?_, rfl⟩, rfl, hi,
      hc _ (Nat.le_refl _) (Document.closedFrom_size _)⟩
    refine ((World.Created.refl w).edit hg (.single (.clone _ _)) hg.size
      (Document.listeners_plant w.document _)).log fun name => ?_
    split
    · exact World.unheard_log rfl _
    · exact .of_eq rfl rfl rfl
  refine hclone.bind (by simp) ?_
  rintro fragment x₁ ⟨_, ⟨⟩, h₁, hb₁, hf, hd⟩
  refine (resolveTargets_leads hd hf _).bind (fun e x h => ⟨h.1 ▸ h₁.1, nofun⟩) ?_
  rintro targets x ⟨rfl, ht⟩
  refine (collect_createBehavior_leads h₁ (ht targets rfl)).bind (fun e x h => ⟨h.1.1, nofun⟩) ?_
  rintro behaviors x₂ ⟨h₂, hs₂, hbs⟩
  obtain ⟨hn, hbs⟩ := hbs behaviors rfl
  refine (viewEnds_leads h₂ hf.1).bind (fun e x h => ⟨h.1.1, nofun⟩) ?_
  rintro ⟨first, last⟩ x₃ ⟨h₃, hb₃⟩
  refine .of_eq (fun _ => rfl) ⟨?_, ?_⟩
  · refine h₃.1.addView h₃.2 rfl rfl hn fun b hb => ?_
    rw [hb₃, ← hb₁]
    exact hbs b hb
  · rintro v ⟨⟩
    rw [← h₃.2]
    exact ⟨rfl, by simp [Store.size]⟩

end Setting

end ReactiveViews
