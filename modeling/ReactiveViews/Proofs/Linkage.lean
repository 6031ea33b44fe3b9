import ReactiveViews.Proofs.Dom.Linked
import ReactiveViews.Proofs.Lasting
/-!
# Documents stay linked

No operation brings parents and children out of step, and the machine changes the
document by operations only. So a linked document is linked at every time of every run
(`linked_of_run`), whatever else is going on. And nothing that has been made becomes
something else: nodes keep their kind, and templates are what they were
(`World.Persists`).
-/

namespace ReactiveViews

namespace Document

variable {d d' : Document}

/-- **Related.** Who is a child of whom is the same, and so is of what kind nodes are. -/
structure Related (d d' : Document) : Prop where
  children (n : NodeId) : d'.children n = d.children n
  parent (n : NodeId) : d'.parent? n = d.parent? n
  kind (n : NodeId) : d'.kind n = d.kind n

namespace Related

theorem of_eq (h : d' = d) : d.Related d' := by
  subst h
  exact ⟨fun _ => rfl, fun _ => rfl, fun _ => rfl⟩

/-- A node changes in what is neither family nor kind. -/
theorem modify (d : Document) (n : NodeId) {f : Node → Node}
    (hf : ∀ node, (f node).children = node.children ∧ (f node).parent = node.parent ∧
      (f node).content.kind = node.content.kind) : d.Related (Store.modify d n f) := by
  have hget : ∀ m, (Store.modify d n f).get m = if n = m then f (d.get n) else d.get m := fun m =>
    Store.get_modify d n m f
  refine ⟨fun m => ?_, fun m => ?_, fun m => ?_⟩
  · rw [Document.children, hget]
    split
    · next he => exact he ▸ (hf _).1
    · rfl
  · rw [Document.parent?, hget]
    split
    · next he => exact he ▸ (hf _).2.1
    · rfl
  · rw [Document.kind, content, hget]
    split
    · next he => exact he ▸ (hf _).2.2
    · rfl

theorem modifyContent (d : Document) (n : NodeId) {f : Content → Content}
    (hf : ∀ c, (f c).kind = c.kind) : d.Related (d.modifyContent n f) :=
  modify d n (f := fun node => { node with content := f node.content }) fun _ => ⟨rfl, rfl, hf _⟩

theorem addListener (d : Document) (n : NodeId) (l : Listener) :
    d.Related (d.addListener n l).2 :=
  modify d n (f := fun node => { node with listeners := ((d.get n).listeners.insert l).2 })
    fun _ => ⟨rfl, rfl, rfl⟩

theorem removeListener (d : Document) (n : NodeId) (slot : Nat) :
    d.Related (d.removeListener n slot) :=
  modify d n (f := fun node => { node with listeners := node.listeners.remove slot })
    fun _ => ⟨rfl, rfl, rfl⟩

end Related

/-- Documents that are related are linked if one of them is. -/
theorem Linked.related (h : d.Linked) (hr : d.Related d') : d'.Linked where
  mem_children {n p} := by rw [hr.children, hr.parent, h.mem_children]
  nodup p := by
    rw [hr.children]
    exact h.nodup p
  kind {n p} hn := by
    rw [hr.parent] at hn
    rw [hr.kind]
    exact h.kind hn

theorem Linked.modifyContent (h : d.Linked) (n : NodeId) {f : Content → Content}
    (hf : ∀ c, (f c).kind = c.kind) : (d.modifyContent n f).Linked :=
  h.related (.modifyContent d n hf)

theorem Linked.removeListener (h : d.Linked) (n : NodeId) (slot : Nat) :
    (d.removeListener n slot).Linked :=
  h.related (.removeListener d n slot)

theorem Linked.insertBefore (h : d.Linked) (parent child : NodeId) (reference : Option NodeId) :
    (d.insertBefore parent child reference).Linked := by
  by_cases he : child = parent
  · rw [Document.insertBefore, if_pos he]
    exact h
  · refine (moved_insertBefore h he reference).linked h ?_ fun n hn => ?_
    · unfold carried
      split
      · exact h.nodup child
      · exact List.nodup_singleton child
    · unfold carried at hn
      split at hn
      · exact h.kind (h.mem_children.mp hn)
      · next hk => exact List.mem_singleton.mp hn ▸ hk

theorem Linked.detach (h : d.Linked) (n : NodeId) : (d.detach n).Linked :=
  (loosened_detach h n).linked h

theorem Linked.removeChild (h : d.Linked) (parent child : NodeId) :
    (d.removeChild parent child).Linked := by
  by_cases hm : child ∈ d.children parent
  · have hdetach : d.detach child = d.removeChild parent child := by
      rw [Document.detach, h.mem_children.mp hm]
    exact hdetach ▸ h.detach child
  · rw [Document.removeChild, if_neg hm]
    exact h

theorem Linked.setText (h : d.Linked) (n : NodeId) (text : String) : (d.setText n text).Linked := by
  have hempty : ∀ (ns : List NodeId) {x : Document}, x.Linked →
      (ns.foldl (fun x child => x.removeChild n child) x).Linked := by
    intro ns
    induction ns with
    | nil => exact id
    | cons m ns ih => exact fun hx => ih (hx.removeChild n m)
  unfold Document.setText
  split
  · exact h.modifyContent n fun _ => rfl
  · exact h.modifyContent n fun _ => rfl
  all_goals
    dsimp only
    split
    · exact hempty _ h
    · exact (linked_create (hempty _ h) _).insertBefore _ _ _

theorem Move.linked (h : Move d d') (hd : d.Linked) : d'.Linked := by
  cases h with
  | insert parent child reference => exact hd.insertBefore parent child reference
  | remove n => exact hd.detach n
  | addListener n l => exact hd.related (.addListener d n l)
  | removeListener n slot => exact hd.removeListener n slot
  | takeHandlers n type =>
    rw [Document.takeHandlers]
    generalize d.listenersFor n type = found
    induction found generalizing d with
    | nil => exact hd
    | cons entry found ih =>
      rw [List.foldl_cons]
      refine ih ?_
      split
      · exact hd.removeListener n entry.1
      · exact hd

/-- **Every edit keeps a document linked.** -/
theorem Edit.linked (h : Edit d d') (hd : d.Linked) : d'.Linked := by
  cases h with
  | create c => exact linked_create hd c
  | plant h => exact linked_plant hd h
  | clone n => exact linked_plant hd (solid_tree hd n)
  | move h => exact h.linked hd
  | removeChild parent child => exact hd.removeChild parent child
  | setText n text => exact hd.setText n text
  | setData n data => exact hd.modifyContent n fun _ => rfl
  | setAttribute n name value => exact hd.modifyContent n fun _ => rfl
  | setProperty n name value => exact hd.modifyContent n fun _ => rfl

theorem Edited.linked (h : d.Edited d') (hd : d.Linked) : d'.Linked := by
  induction h with
  | refl => exact hd
  | tail _ he ih => exact he.linked ih

/-- Letting go of nodes loosens their children. -/
theorem Linked.orphan (h : d.Linked) (live : ThingSet) : (World.orphan d live).Linked := by
  unfold World.orphan
  dsimp only
  generalize d.refs.filter _ = gone
  induction gone generalizing d with
  | nil => exact h
  | cons n gone ih =>
    rw [List.foldl_cons]
    have hd : d.Loosened ((d.setParents (d.children n) none).setChildren n []) (d.children n) := by
      refine ⟨fun m => ?_, fun m => ?_, fun p => ?_⟩
      · rw [content_setChildren, content_setParents]
      · rw [parent_setChildren, parent_setParents]
      · rw [children_setChildren, children_setParents]
        split
        · next he => rw [← he, without_eq_nil (List.Subset.refl _)]
        · next he =>
          refine (without_eq_self fun m hm hn => he ?_).symm
          exact Option.some.inj ((h.mem_children.mp hn).symm.trans (h.mem_children.mp hm))
    exact ih (hd.linked h)

/-! ## Kinds -/

/-- Nodes that have been made are of the kind they were. -/
structure KeepsKinds (d d' : Document) : Prop where
  size : d.size ≤ d'.size
  kind {n : NodeId} : n.index < d.size → d'.kind n = d.kind n

namespace KeepsKinds

theorem refl (d : Document) : d.KeepsKinds d := ⟨Nat.le_refl _, fun _ => rfl⟩

theorem trans {a b c : Document} (h : a.KeepsKinds b) (h' : b.KeepsKinds c) : a.KeepsKinds c :=
  ⟨Nat.le_trans h.size h'.size,
    fun hn => (h'.kind (Nat.lt_of_lt_of_le hn h.size)).trans (h.kind hn)⟩

theorem of_grown (h : d.Grown d') : d.KeepsKinds d' :=
  ⟨h.size, fun hn => congrArg (fun node => node.content.kind) (h.get _ hn)⟩

theorem modify (d : Document) (n : NodeId) {f : Node → Node}
    (hf : ∀ node, (f node).content.kind = node.content.kind) :
    d.KeepsKinds (Store.modify d n f) := by
  refine ⟨Store.size_le_modify _ _ _, fun {m} _ => ?_⟩
  rw [Document.kind, content, Store.get_modify]
  split
  · next he => exact he ▸ hf _
  · rfl

theorem setChildren (d : Document) (n : NodeId) (ns : List NodeId) :
    d.KeepsKinds (d.setChildren n ns) :=
  modify d n (f := fun node => { node with children := ns }) fun _ => rfl

theorem setParent (d : Document) (n : NodeId) (parent : Option NodeId) :
    d.KeepsKinds (d.setParent n parent) :=
  modify d n (f := fun node => { node with parent }) fun _ => rfl

theorem modifyContent (d : Document) (n : NodeId) {f : Content → Content}
    (hf : ∀ c, (f c).kind = c.kind) : d.KeepsKinds (d.modifyContent n f) :=
  modify d n (f := fun node => { node with content := f node.content }) fun _ => hf _

theorem removeListener (d : Document) (n : NodeId) (slot : Nat) :
    d.KeepsKinds (d.removeListener n slot) :=
  modify d n (f := fun node => { node with listeners := node.listeners.remove slot }) fun _ => rfl

theorem foldl {α : Type} {f : Document → α → Document}
    (hf : ∀ (d : Document) a, d.KeepsKinds (f d a)) (l : List α) (d : Document) :
    d.KeepsKinds (l.foldl f d) := by
  induction l generalizing d with
  | nil => exact .refl d
  | cons a l ih => exact (hf d a).trans (ih _)

theorem setParents (d : Document) (ns : List NodeId) (parent : Option NodeId) :
    d.KeepsKinds (d.setParents ns parent) :=
  foldl (fun d n => setParent d n parent) ns d

theorem removeChild (d : Document) (parent child : NodeId) :
    d.KeepsKinds (d.removeChild parent child) := by
  unfold Document.removeChild
  split
  · exact (setChildren d parent _).trans (setParent _ child none)
  · exact .refl d

theorem detach (d : Document) (n : NodeId) : d.KeepsKinds (d.detach n) := by
  unfold Document.detach
  split
  · exact removeChild d _ n
  · exact .refl d

theorem uproot (d : Document) (child : NodeId) : d.KeepsKinds (d.uproot child).2 := by
  unfold Document.uproot
  split
  · exact setChildren d child []
  · exact detach d child

theorem insertBefore (d : Document) (parent child : NodeId) (reference : Option NodeId) :
    d.KeepsKinds (d.insertBefore parent child reference) := by
  unfold Document.insertBefore
  split
  · exact .refl d
  · exact ((uproot d child).trans (setParents _ _ _)).trans (setChildren _ parent _)

theorem create (d : Document) (c : Content) : d.KeepsKinds (d.create c).2 :=
  of_grown (.add d _)

theorem setText (d : Document) (n : NodeId) (text : String) : d.KeepsKinds (d.setText n text) := by
  unfold Document.setText
  split
  · exact modifyContent d n fun _ => rfl
  · exact modifyContent d n fun _ => rfl
  all_goals
    have hempty := foldl (fun d child => removeChild d n child) (d.children n) d
    dsimp only
    split
    · exact hempty
    · exact (hempty.trans (create _ _)).trans (insertBefore _ _ _ _)

end KeepsKinds

theorem Move.keepsKinds (h : Move d d') : d.KeepsKinds d' := by
  cases h with
  | insert parent child reference => exact .insertBefore _ _ _ _
  | remove n => exact .detach _ n
  | addListener n l =>
    exact .modify _ n (f := fun node => { node with listeners := ((d.get n).listeners.insert l).2 })
      fun _ => rfl
  | removeListener n slot => exact .removeListener _ n slot
  | takeHandlers n type =>
    refine .foldl (fun d entry => ?_) _ _
    split
    · exact .removeListener d n entry.1
    · exact .refl d

theorem Edit.keepsKinds (h : Edit d d') : d.KeepsKinds d' := by
  cases h with
  | create c => exact .create _ c
  | plant _ | clone => exact .of_grown (plant_grown _ _).1
  | move h => exact h.keepsKinds
  | removeChild parent child => exact .removeChild _ parent child
  | setText n text => exact .setText _ n text
  | setData n | setAttribute n | setProperty n => exact .modifyContent _ n fun _ => rfl

theorem KeepsKinds.orphan (d : Document) (live : ThingSet) : d.KeepsKinds (World.orphan d live) :=
  foldl (fun d n => (setParents d _ _).trans (setChildren _ n [])) _ d

end Document

theorem Mutation.Shows.edit {m : Mutation} {n : NodeId} {a : Aspect} (h : m.Shows n a)
    (d : Document) : Document.Edit d (d.mutate m) := by
  cases h with
  | text _ data => exact .setData d n data
  | attr _ name value => exact .setAttribute d n name value
  | flag _ name present => exact .setAttribute d n name _
  | prop _ name value => exact .setProperty d n name value

namespace World

variable {w w' : World} {spared : ViewId → Bool}

theorem document_follow (w : World) (next : FollowUp) : (w.follow next).document = w.document := by
  obtain h | ⟨entries, h⟩ | ⟨pool, h⟩ := w.follow_cases next <;> rw [h]

theorem templates_follow (w : World) (next : FollowUp) : (w.follow next).templates = w.templates := by
  obtain h | ⟨entries, h⟩ | ⟨pool, h⟩ := w.follow_cases next <;> rw [h]

theorem Queued.document {Mild : Subject → Prop} {next : FollowUp} (h : Queued Mild w next w') :
    w'.document = w.document := by
  cases h <;> rfl

theorem Queued.templates {Mild : Subject → Prop} {next : FollowUp} (h : Queued Mild w next w') :
    w'.templates = w.templates := by
  cases h <;> rfl

theorem Change.linked {Mild : Subject → Prop} (h : Change Mild w w') (hw : w.document.Linked) :
    w'.document.Linked := by
  cases h with
  | created h => exact h.edited.linked hw
  | move h => exact h.linked hw
  | shows h => exact (h.edit _).linked hw
  | queued h => exact ((document_follow _ _).trans h.document) ▸ hw
  | ask scheduler => exact document_follow w (.schedule scheduler) ▸ hw
  | request => exact (document_follow _ _).symm ▸ hw
  | sweep => exact hw.orphan w.reachable
  | _ => exact hw

/-- **Persisting.** What has been made lasts, nodes keep their kind, and templates are what they
were. -/
structure Persists (spared : ViewId → Bool) (w w' : World) : Prop where
  lasts : w.Lasts spared w'
  kinds : w.document.KeepsKinds w'.document
  templates : w.templates.Grown w'.templates

namespace Persists

theorem of_lasts (h : w.Lasts spared w') (hd : w'.document = w.document)
    (ht : w'.templates = w.templates) : w.Persists spared w' :=
  ⟨h, hd ▸ .refl _, ht ▸ .refl _⟩

theorem of_eq (hb : w'.behaviors = w.behaviors) (hv : w'.views = w.views)
    (hd : w'.document = w.document) (ht : w'.templates = w.templates) : w.Persists spared w' :=
  .of_lasts (.of_eq hb hv) hd ht

theorem refl (w : World) : w.Persists spared w := .of_eq rfl rfl rfl rfl

theorem trans {a b c : World} (h : a.Persists spared b) (h' : b.Persists spared c) :
    a.Persists spared c :=
  ⟨h.lasts.trans h'.lasts, h.kinds.trans h'.kinds, h.templates.trans h'.templates⟩

theorem of_edit {document : Document} (h : Document.Edit w.document document) :
    w.Persists spared { w with document } :=
  ⟨.of_eq rfl rfl, h.keepsKinds, .refl _⟩

/-- **Every change lets things persist** but views that are spared. -/
theorem of_change {Mild : Subject → Prop} (hm : ∀ v, Mild (.view v) → spared v = false)
    (h : Change Mild w w') : w.Persists spared w' := by
  refine ⟨.of_change hm h, ?_, ?_⟩
  · cases h with
    | created h => exact .of_grown h.document
    | move h => exact h.keepsKinds
    | shows h => exact (h.edit _).keepsKinds
    | queued h => exact ((document_follow _ _).trans h.document) ▸ .refl _
    | ask scheduler => exact document_follow w (.schedule scheduler) ▸ .refl _
    | request => exact (document_follow _ _).symm ▸ .refl _
    | sweep => exact .orphan _ _
    | _ => exact .refl _
  · cases h with
    | created h => exact (congrArg World.templates h.rest) ▸ .refl _
    | queued h => exact ((templates_follow _ _).trans h.templates) ▸ .refl _
    | ask scheduler => exact templates_follow w (.schedule scheduler) ▸ .refl _
    | request => exact (templates_follow _ _).symm ▸ .refl _
    | _ => exact .refl _

theorem of_setup (h : Setup w w') : w.Persists spared w' := by
  cases h with
  | edit h => exact .of_edit h
  | newTemplate s => exact ⟨.of_eq rfl rfl, .refl _, .add _ s⟩
  | _ => exact .of_eq rfl rfl rfl rfl

theorem of_write (h : Write w w') : w.Persists spared w' := by
  cases h <;> exact .of_eq rfl rfl rfl rfl

theorem of_access (h : Access w w') : w.Persists spared w' := by
  cases h <;> exact .of_eq rfl rfl rfl rfl

theorem of_adjustment (h : Adjustment w w') : w.Persists spared w' := by
  refine .of_lasts (.of_adjustment h) ?_ ?_
  · cases h with
    | await => exact document_follow _ _
    | _ => rfl
  · cases h with
    | await => exact templates_follow _ _
    | _ => rfl

/-- So they do whatever is in the log, who is held on to, watched and so on. -/
theorem alike {w₁ w₁' : World} (h : w.Persists spared w') (hb : w₁.behaviors = w.behaviors)
    (hv : w₁.views = w.views) (hd : w₁.document = w.document) (ht : w₁.templates = w.templates)
    (hb' : w₁'.behaviors = w'.behaviors) (hv' : w₁'.views = w'.views)
    (hd' : w₁'.document = w'.document) (ht' : w₁'.templates = w'.templates) :
    w₁.Persists spared w₁' :=
  ((of_eq hb.symm hv.symm hd.symm ht.symm : w₁.Persists spared w).trans h).trans
    (.of_eq hb' hv' hd' ht')

end Persists

end World

/-- **The regime of linked documents**, in which things persist. -/
def linking (spared : ViewId → Bool) : Regime where
  allowed := sparing spared
  Mild := (lasting spared).Mild
  Inv w := w.document.Linked
  Rel := World.Persists spared
  Entry _ w := w.document.Linked
  Exit _ w _ w' := w.Persists spared w' ∧ w'.document.Linked
  refl := .refl
  trans := .trans
  entry _ _ h := h
  exit _ _ _ h := h
  change hw h := ⟨.of_change (fun _ => id) h, h.linked hw⟩
  enter hs hw := by cases hs <;> exact hw
  leave hs _ h hi := by
    cases hs <;> exact ⟨h.alike rfl rfl rfl rfl rfl rfl rfl rfl, hi⟩
  grown h := h.lasts.size_behaviors
  light _ _ := .inr fun _ => trivial
  takes _ _ := .inr trivial
  calledBack _ _ := .inr trivial
  watcher _ _ := .inr fun _ => trivial
  behaviors _ _ _ := trivial
  observers _ _ _ := .inr fun _ => trivial
  aspects _ _ _ := trivial

section Linking

variable {spared : ViewId → Bool}

instance : (linking spared).Accessible where
  entry _ hw := hw
  exit _ _ h := h
  access hw hc := ⟨.of_access hc, by cases hc <;> exact hw⟩

instance (name : String) : (linking spared).Slight (.listener name) := ⟨trivial⟩

instance : (linking spared).Loose where
  tether _ := trivial
  lists _ := trivial
  view := Regime.Loose.view (G := lasting spared)

instance : (linking spared).Uniform where
  tickets := trivial
  behavior _ := trivial
  aspect _ _ := trivial
  setup hw hc := ⟨.of_setup hc, by
    cases hc with
    | edit h => exact h.linked hw
    | _ => exact hw⟩
  cues := trivial
  deliver hw _ := hw
  delivered _ h := h
  write hw hc := ⟨.of_write hc, by cases hc <;> exact hw⟩
  flush _ hw := hw
  flushed _ _ h := h
  pressed hw hc := ⟨.of_lasts (.of_queued hc) hc.document hc.templates,
    show Document.Linked _ from hc.document ▸ hw⟩
  adjust hw hc := by
    refine ⟨.of_adjustment hc, ?_⟩
    cases hc with
    | await => exact show Document.Linked _ from (World.document_follow _ _).symm ▸ hw
    | _ => exact hw

/-- While the tasks of a flush run, the document is linked between their turns. -/
def linkingFlushing (spared : ViewId → Bool) : Flushing (linking spared) where
  Owed start _ w := start.Persists spared w ∧ w.document.Linked
  log _ h := ⟨h.1.trans (.of_eq rfl rfl rfl rfl), h.2⟩
  turn h := h.2
  ran {_ w w' t rest _} h _ he := by
    have hturn : w.Persists spared (w.inTurn t rest) := .of_eq rfl rfl rfl rfl
    exact ⟨((h.1.trans hturn).trans he.1).trans (.of_eq rfl rfl rfl rfl), he.2⟩

theorem linking_kept (spared : ViewId → Bool) : (linking spared).Kept := by
  refine Regime.Uniform.kept (fun S => ⟨fun {w} hw => ?_⟩) (fun h _ => h)
    (fun hr hi => ⟨hr, hi⟩) fun S {t w} hw _ => Setting.Agrees.agreesAt (m := Machine.update t) hw
  refine (linkingFlushing spared).process_agreesAt S (fun _ => ⟨.of_eq rfl rfl rfl rfl, hw⟩)
    fun x hx => ?_
  cases hx with
  | none => exact ⟨.of_eq rfl rfl rfl rfl, hw⟩
  | all _ h => exact ⟨World.Persists.trans h.1 (.of_eq rfl rfl rfl rfl), h.2⟩

variable {depth : Nat} {c : Call} {w w' : World} {r : Except Error c.Result}

/-- **Documents stay linked** in every run, and what has been made persists. -/
theorem linked_of_run (hw : w.document.Linked) (h : callsSparing spared depth c w = some (r, w')) :
    w.Persists spared w' ∧ w'.document.Linked :=
  (Regime.run_agrees (linking_kept spared) (sparing spared) (fun _ _ _ h => h) depth hw h).2.2

/-- A run that spares some views spares fewer as well. -/
def linkingSetting {fewer : ViewId → Bool} (hf : ∀ v, fewer v → spared v) (depth : Nat) :
    Setting (linking fewer) where
  calls := callsSparing spared depth
  calls' := callsSparing spared depth
  firm := instFirmlyCallsSparing
  call {c w _ _} hw h := by
    have ha := (Regime.run_agrees (linking_kept spared) (sparing spared) (fun _ _ _ h => h) depth hw
      h).1
    obtain ⟨hp, hl⟩ := linked_of_run hw h
    exact ⟨sparing_fewer (c := c) (w := w) hf ha, h,
      ⟨hp.lasts.fewer hf, hp.kinds, hp.templates⟩, hl⟩

/-- Whatever a call is about, other spared views are left alone. -/
theorem linked_of_callsAround {fewer : ViewId → Bool} (hf : ∀ v, fewer v → spared v)
    (ha : sparing fewer c w = true) (hw : w.document.Linked)
    (h : callsAround spared depth c w = some (r, w')) :
    w.Persists fewer w' ∧ w'.document.Linked :=
  ((linking_kept fewer).body (linkingSetting hf depth) hw ha r w' h).2

end Linking

end ReactiveViews
