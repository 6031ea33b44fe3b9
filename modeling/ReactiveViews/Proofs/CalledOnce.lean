import ReactiveViews.Proofs.Currency.Events
import ReactiveViews.Proofs.Dom.Rosters
import ReactiveViews.Proofs.Flush
import ReactiveViews.Proofs.Linkage
/-!
# Listeners that are called once

A listener that is to be called once is taken off before any handler of its node is called, so whatever the
handlers do, an event of the same type at the same node does not find it any more. What is counted is the calls that
the log tells of, and the one that may still come as long as the listener is registered or has not been registered
yet (`World.credit`). Nothing that is done lets this grow: a call that is told of might still come when the handlers of
its node were called up (`World.Single.taken`), and whoever registers the listener has not done so before. So over a
whole session, whoever registers the listener and wherever, it is called at most once
(`Session.calls_le_one`).
-/

namespace ReactiveViews

open Machine

/-- A scripted listener of a name is registered at a node under a number. -/
def Document.Registers (d : Document) (name : String) (n : NodeId) (slot : Nat) (l : Listener) : Prop :=
  d.listener? n slot = some l ∧ l.handler.isOf name = true

theorem Document.NoneJoin.registers {d d' : Document} {name : String} (h : d.NoneJoin name d') {n : NodeId}
    {slot : Nat} {l : Listener} (hr : d'.Registers name n slot l) : d.Registers name n slot l :=
  ⟨h hr.1 hr.2, hr.2⟩

namespace World

variable {w w' : World} {name : String}

/-- **Single.** At most one scripted listener of a name is registered. It is to be called once, and there is a handle
by the name. -/
structure Single (w : World) (name : String) : Prop where
  once {n slot l} : w.document.Registers name n slot l → l.once = true
  one {n slot l m other l'} : w.document.Registers name n slot l → w.document.Registers name m other l' →
    n = m ∧ slot = other
  named {n slot l} : w.document.Registers name n slot l → w.handles.find? name ≠ none

/-- A call of a scripted listener of a name may still come: it is registered, or the name has not been given. -/
def Expects (w : World) (name : String) : Prop :=
  (∃ n slot l, w.document.Registers name n slot l) ∨ w.handles.find? name = none

open Classical in
/-- The calls of a scripted listener of a name that the log tells of, and the one that may still come. -/
noncomputable def credit (w : World) (name : String) : Nat :=
  callsOf name w.log + if w.Expects name then 1 else 0

theorem Unheard.single (h : w.Unheard name w') (hw : w.Single name) : w'.Single name where
  once hr := hw.once (h.joined.registers hr)
  one hr hr' := hw.one (h.joined.registers hr) (h.joined.registers hr')
  named hr := h.named (hw.named (h.joined.registers hr))

theorem Unheard.expects (h : w.Unheard name w') (hw : w'.Expects name) : w.Expects name := by
  obtain ⟨n, slot, l, hr⟩ | hnone := hw
  · exact .inl ⟨n, slot, l, h.joined.registers hr⟩
  · exact .inr (Classical.not_not.mp fun hn => h.named hn hnone)

/-- **Spending.** At most so many more calls are told of than might still come, and what has been made stays. -/
structure Spends (name : String) (k : Nat) (w w' : World) : Prop where
  grown : w.behaviors.size ≤ w'.behaviors.size
  credit : w'.credit name ≤ w.credit name + k

theorem Unheard.spends (h : w.Unheard name w') (hb : w.behaviors.size ≤ w'.behaviors.size) :
    w.Spends name 0 w' := by
  refine ⟨hb, ?_⟩
  have htold := h.told
  unfold credit
  split
  · next he =>
    rw [if_pos (h.expects he)]
    omega
  · omega

namespace Spends

variable {k k' : Nat}

theorem of_eq (hb : w'.behaviors = w.behaviors) (hd : w'.document = w.document) (hl : w'.log = w.log)
    (hh : w'.handles = w.handles) : w.Spends name 0 w' :=
  (Unheard.of_eq hd hl hh).spends (Nat.le_of_eq (congrArg Store.size hb.symm))

theorem refl (w : World) : w.Spends name 0 w := of_eq rfl rfl rfl rfl

theorem trans {x : World} (h : w.Spends name k x) (h' : x.Spends name k' w') :
    w.Spends name (k + k') w' := by
  refine ⟨Nat.le_trans h.grown h'.grown, ?_⟩
  have hfirst := h.credit
  have hsecond := h'.credit
  omega

theorem mono (h : w.Spends name k w') (hk : k ≤ k') : w.Spends name k' w' :=
  ⟨h.grown, Nat.le_trans h.credit (Nat.add_le_add_left hk _)⟩

end Spends

/-! ## Handlers that are called up -/

/-- The world in which the handlers at a node have been called up for an event and are being called. -/
def atNode (w : World) (n : NodeId) (e : EventId) : World :=
  { w with
    document := (w.document.takeHandlers n (w.events.get e).type).2
    held := [.event e, .node n] ++ w.held }

theorem countP_takeHandlers_le_one (hw : w.Single name) {n : NodeId} {slot : Nat} {l : Listener}
    (hr : w.document.Registers name n slot l) (type : String) :
    (w.document.takeHandlers n type).1.countP (Handler.isOf name) ≤ 1 := by
  have hnodup : ((w.document.listenersFor n type).map Prod.fst).Nodup :=
    (Slots.nodup_toList _).sublist (List.filter_sublist.map Prod.fst)
  have hcount := List.nodup_iff_count_le_one.mp hnodup slot
  rw [List.count, List.countP_map] at hcount
  rw [Document.takeHandlers, List.countP_map]
  refine Nat.le_trans (List.countP_mono_left ?_) hcount
  rintro ⟨other, l'⟩ hm ho
  exact beq_iff_eq.mpr (hw.one ⟨(Document.mem_listenersFor.mp hm).1, ho⟩ hr).2

theorem unheard_atNode (w : World) (n : NodeId) (e : EventId) : w.Unheard name (w.atNode n e) :=
  ⟨Document.noneJoin_takeHandlers w.document n _, Nat.le_refl _, id⟩

/-- **Who is called up was expected**, and is not expected any more. -/
theorem Single.taken (hw : w.Single name) (n : NodeId) (e : EventId) :
    (w.document.takeHandlers n (w.events.get e).type).1.countP (Handler.isOf name) +
      (w.atNode n e).credit name ≤ w.credit name := by
  generalize htype : (w.events.get e).type = type
  by_cases hfound : ∃ entry ∈ w.document.listenersFor n type, entry.2.handler.isOf name = true
  · obtain ⟨⟨slot, l⟩, hm, ho⟩ := hfound
    obtain ⟨hl, rfl⟩ := Document.mem_listenersFor.mp hm
    have hr : w.document.Registers name n slot l := ⟨hl, ho⟩
    have hgone : ¬ (w.atNode n e).Expects name := by
      rintro (⟨m, other, l', hr'⟩ | hnone)
      · obtain ⟨rfl, rfl⟩ := hw.one hr ((unheard_atNode w n e).joined.registers hr')
        have htaken := Document.listener?_takeHandlers_once hl (hw.once hr)
        rw [← htype] at htaken
        exact absurd (htaken.symm.trans hr'.1) nofun
      · exact hw.named hr hnone
    have hone := countP_takeHandlers_le_one hw hr l.type
    have htold : (w.atNode n e).log = w.log := rfl
    rw [credit, credit, if_neg hgone, if_pos (.inl ⟨n, slot, l, hr⟩), htold]
    omega
  · have hzero : (w.document.takeHandlers n type).1.countP (Handler.isOf name) = 0 := by
      rw [Document.takeHandlers, List.countP_map, List.countP_eq_zero]
      exact fun entry hm ho => hfound ⟨entry, hm, ho⟩
    rw [hzero, Nat.zero_add]
    exact ((unheard_atNode w n e).spends (Nat.le_refl _)).credit

/-- The name is given to the listener that is registered. -/
theorem Single.listened (hw : w.Single name) (hname : w.handles.find? name = none) (n : NodeId) {l : Listener}
    (hl : l.once = true) (h : Handle) :
    ({ w with
        document := (w.document.addListener n l).2
        handles := w.handles.put name h } : World).Single name := by
  have hnew : ∀ {m other l'}, (w.document.addListener n l).2.Registers name m other l' →
      (m = n ∧ other = (w.document.addListener n l).1) ∧ l' = l := by
    intro m other l' hr
    obtain ⟨hfind, ho⟩ := hr
    have hold : w.document.listener? m other ≠ some l' := fun hf => hw.named ⟨hf, ho⟩ hname
    rw [Document.listener?, Document.addListener, Store.get_modify] at hfind
    split at hfind
    · next he =>
      subst he
      obtain ⟨hs, hl'⟩ := (Slots.find?_insert_cases hfind).resolve_right hold
      exact ⟨⟨rfl, hs⟩, hl'⟩
    · exact absurd hfind hold
  refine ⟨fun hr => (hnew hr).2 ▸ hl, fun hr hr' => ?_, fun _ => ?_⟩
  · exact ⟨(hnew hr).1.1.trans (hnew hr').1.1.symm, (hnew hr).1.2.trans (hnew hr').1.2.symm⟩
  · rw [Keyed.find?_put, if_pos rfl]
    exact Option.some_ne_none h

/-! ## Changes -/

theorem unheard_follow (w : World) (next : FollowUp) : w.Unheard name (w.follow next) := by
  cases next with
  | nothing | runNow => exact .of_eq rfl rfl rfl
  | schedule scheduler =>
    cases scheduler with
    | manual => exact .of_eq rfl rfl rfl
    | log => exact unheard_log rfl w
    | pool =>
      simp only [follow, ask]
      split
      · exact .of_eq rfl rfl rfl
      · exact unheard_log rfl w

theorem unheard_follow_queue (w : World) (queue : Queue) (next : FollowUp) :
    w.Unheard name (({ w with queue } : World).follow next) :=
  have h : Unheard _ name _ := unheard_follow { w with queue } next
  ⟨h.joined, h.told, h.named⟩

theorem Queued.unheard {Mild : Subject → Prop} {next : FollowUp} (h : Queued Mild w next w') :
    w.Unheard name w' := by
  cases h <;> exact .of_eq rfl rfl rfl

/-- **No listed change is heard** by those that one has anything to say of. -/
theorem Change.unheard {Mild : Subject → Prop} (hm : ¬ Mild (.listener name)) (h : Change Mild w w') :
    w.Unheard name w' := by
  cases h with
  | log _ hu | move _ hu => exact (hu name).resolve_left hm
  | shows h =>
    refine unheard_document (Document.noneJoin_of_same fun m => ?_)
    cases h <;> exact Document.listeners_modifyContent _ _ _ _
  | created h => exact h.unheard name
  | sweep => exact ⟨Document.noneJoin_of_same (Document.listeners_orphan _ _), Nat.le_refl _, id⟩
  | ask scheduler => exact unheard_follow w (.schedule scheduler)
  | queued h => exact h.unheard.trans (unheard_follow _ _)
  | request => exact unheard_follow_queue w _ _
  | drop other hother =>
    have hne : other ≠ name := fun he => hm (he ▸ hother)
    exact ⟨Document.noneJoin_refl _, Nat.le_refl _, fun h => by rwa [Keyed.find?_erase, if_neg hne]⟩
  | _ => exact .of_eq rfl rfl rfl

/-- A handle is given. -/
theorem unheard_give (w : World) (other : String) (h : Handle) :
    w.Unheard name { w with handles := w.handles.put other h } := by
  refine ⟨Document.noneJoin_refl _, Nat.le_refl _, fun hn => ?_⟩
  rw [Keyed.find?_put]
  split
  · nofun
  · exact hn

theorem Setup.unheard (h : Setup w w') : w.Unheard name w' := by
  cases h with
  | edit h hu => exact unheard_document (hu name)
  | give other hi => exact unheard_give w other _
  | _ => exact .of_eq rfl rfl rfl

theorem Write.unheard (h : Write w w') : w.Unheard name w' := by
  cases h <;> exact .of_eq rfl rfl rfl

theorem Access.unheard (h : Access w w') : w.Unheard name w' := by
  cases h with
  | place => exact .of_eq rfl rfl rfl
  | give other h => exact unheard_give w other h

theorem Adjustment.unheard (h : Adjustment w w') : w.Unheard name w' := by
  cases h with
  | await => exact unheard_follow_queue w _ _
  | install | mode | pool => exact .of_eq rfl rfl rfl

end World

/-! ## The regime -/

/-- **Named once.** A scripted listener of the name is registered only to be called once and when there is no handle
by the name, and this handle is not dropped. -/
def namedOnce (name : String) (c : Call) (w : World) : Bool :=
  match c with
  | .perform (.event (.listen handle _ _ once _)) =>
    handle != name || (once && (w.handles.find? name).isNone)
  | .perform (.drop handle) => handle != name
  | _ => true

/-- **The regime of a listener that is called once.** -/
def counting (name : String) : Regime where
  allowed := namedOnce name
  Mild x := x ≠ .listener name
  Inv w := w.Single name
  Rel := World.Spends name 0
  Entry _ w := w.Single name
  Exit _ w _ w' := w.Spends name 0 w' ∧ w'.Single name
  refl := .refl
  trans := .trans
  entry _ _ h := h
  exit _ _ _ h := h
  change hw hc := have h := hc.unheard fun h => h rfl; ⟨h.spends hc.size_behaviors, h.single hw⟩
  enter hs hw := by cases hs <;> exact ⟨hw.once, hw.one, hw.named⟩
  leave hs _ h hw := by cases hs <;> exact ⟨⟨h.grown, h.credit⟩, hw.once, hw.one, hw.named⟩
  grown h := h.grown
  light _ _ := .inr fun _ => nofun
  takes _ _ := .inr nofun
  calledBack _ _ := .inr nofun
  watcher _ _ := .inr fun _ => nofun
  behaviors _ _ _ := nofun
  observers _ _ _ := .inr fun _ => nofun
  aspects _ _ _ := nofun

section Counting

variable {name : String} {w w' : World}

/-- Nobody joins, and no calls are told of. -/
theorem counting_unheard (h : w.Unheard name w') (hb : w'.behaviors = w.behaviors)
    (hw : (counting name).Inv w) : (counting name).Rel w w' ∧ (counting name).Inv w' :=
  ⟨h.spends (Nat.le_of_eq (congrArg Store.size hb.symm)), h.single hw⟩

instance : (counting name).Accessible where
  entry _ hw := hw
  exit _ _ h := h
  access hw hc := counting_unheard hc.unheard (by cases hc <;> rfl) hw

instance : (counting name).Loose where
  tether _ := nofun
  lists _ := nofun
  view _ _ := nofun

instance : (counting name).Uniform where
  tickets := nofun
  behavior _ := nofun
  aspect _ _ := nofun
  setup hw hc := counting_unheard hc.unheard (by cases hc <;> rfl) hw
  cues := nofun
  deliver hw _ := hw
  delivered _ h := h
  write hw hc := counting_unheard hc.unheard (by cases hc <;> rfl) hw
  flush _ hw := hw
  flushed _ _ h := h
  pressed hw hc := counting_unheard hc.unheard hc.behaviors hw
  adjust hw hc := counting_unheard hc.unheard hc.behaviors hw

/-- While the tasks of a flush run, no more calls are told of than might still come. -/
def countingFlushing (name : String) : Flushing (counting name) where
  Owed start _ w := start.Spends name 0 w ∧ w.Single name
  log hu h := ⟨h.1.trans ((hu name).spends (Nat.le_refl _)), (hu name).single h.2⟩
  turn h := ⟨h.2.once, h.2.one, h.2.named⟩
  ran {_ w w' t rest _} h _ he := by
    have hin : w.Spends name 0 (w.inTurn t rest) := .of_eq rfl rfl rfl rfl
    have hout : w'.Spends name 0 { w' with held := w.held } := .of_eq rfl rfl rfl rfl
    exact ⟨((h.1.trans hin).trans he.1).trans hout, he.2.once, he.2.one, he.2.named⟩

end Counting

namespace Setting

variable {name : String} {S : Setting (counting name)} {w : World}

/-- A handler is called: at most one call is told of, and none if it is no scripted listener of the name. -/
theorem callHandler_spends (hw : w.Single name) (e : EventId) (h : Handler) :
    S.Leads (callHandler e h) w fun _ w' =>
      w.Spends name (if h.isOf name then 1 else 0) w' ∧ w'.Single name := by
  split
  · next ho =>
    cases h with
    | scripted handle actions =>
      unfold callHandler
      refine Leads.read (.step (fun _ => rfl) ?_)
      generalize hentry : LogEntry.handled handle _ _ _ = entry
      have htold : w.Spends name 1 { w with log := entry :: w.log } := by
        refine ⟨Nat.le_refl _, ?_⟩
        have hcount : callsOf name (entry :: w.log) ≤ callsOf name w.log + 1 := by
          rw [callsOf, List.countP_cons]
          split <;> simp [callsOf]
        exact Nat.le_trans (Nat.add_le_add_right hcount _) (Nat.le_of_eq (Nat.add_right_comm _ _ _))
      have hsingle : ({ w with log := entry :: w.log } : World).Single name := ⟨hw.once, hw.one, hw.named⟩
      have ha : S.AgreesAt (each (runAction e) actions) _ := Agrees.agreesAt hsingle
      exact ha.mono fun _ _ h => ⟨htold.trans h.1, h.2⟩
    | assign | event => exact absurd ho nofun
  · next ho =>
    have ha : S.Agrees (callHandler e h) := agrees_callHandler e fun other => by
      by_cases hn : other = name
      · exact .inr (hn ▸ Bool.eq_false_iff.mpr ho)
      · exact .inl fun he => hn (Subject.listener.inj he)
    exact ha.agreesAt hw

/-- Handlers are called one after another. -/
theorem each_callHandler_spends (hw : w.Single name) (e : EventId) (handlers : List Handler) :
    S.Leads (each (callHandler e) handlers) w fun _ w' =>
      w.Spends name (handlers.countP (Handler.isOf name)) w' ∧ w'.Single name := by
  induction handlers generalizing w with
  | nil => exact .of_eq (fun _ => rfl) ⟨.refl w, hw⟩
  | cons h handlers ih =>
    rw [List.countP_cons, Nat.add_comm]
    refine (callHandler_spends hw e h).bind (fun _ _ h => ⟨h.1.mono (Nat.le_add_right _ _), h.2⟩)
      fun _ w₁ h₁ => ?_
    exact (ih h₁.2).mono fun _ _ h => ⟨h₁.1.trans h.1, h.2⟩

instance (n : NodeId) (e : EventId) : S.Agrees (ascend n e) := by
  unfold ascend
  refine .get fun w hw => ?_
  extract_lets s
  split
  · split
    · exact Agrees.agreesAt hw
    · exact Agrees.agreesAt hw
  · exact Agrees.agreesAt hw

/-- **Calling the listeners of a node** tells of no more calls than might still come. -/
theorem bubble_counted (n : NodeId) (e : EventId) : S.Agrees (bubble n e) := by
  refine ⟨fun {w} hw => .congr (bubble_apply n e · w) ?_⟩
  have hsingle := (World.unheard_atNode w n e).single hw
  have hcalled : S.Leads (holding [.event e, .node n]
      (each (callHandler e) (w.document.takeHandlers n (w.events.get e).type).1))
      { w with document := (w.document.takeHandlers n (w.events.get e).type).2 } fun _ w' =>
        w.Spends name 0 w' ∧ w'.Single name := by
    refine Leads.mono (Leads.within (each_callHandler_spends hsingle e _)) ?_
    rintro _ _ ⟨x, rfl, hx, hafter⟩
    have hcredit : x.credit name ≤ w.credit name := Nat.le_trans hx.credit (by
      rw [Nat.add_comm]
      exact hw.taken n e)
    exact ⟨⟨hx.grown, hcredit⟩, hafter.once, hafter.one, hafter.named⟩
  exact hcalled.bind (fun _ _ h => h) fun _ w₁ h => AgreesAt.since h.1 (Agrees.agreesAt h.2)

/-- **Registering the listener** is done when it has not been done before. -/
theorem listen_counted (hw : w.Single name) (hname : w.handles.find? name = none) (node type : String)
    (actions : List Action) : S.AgreesAt (performEvent (.listen name node type true actions)) w := by
  unfold performEvent nodeNamed lookUp
  simp only [bind_assoc]
  refine Leads.read ?_
  split
  · next n hn =>
    have hspends : w.Spends name 0 { w with
        document := (w.document.addListener n ⟨type, .scripted name actions, true⟩).2
        handles := w.handles.put name
          (.listener (w.document.addListener n ⟨type, .scripted name actions, true⟩).1) } := by
      refine ⟨Nat.le_refl _, ?_⟩
      have hexpects : w.Expects name := .inr hname
      unfold World.credit
      rw [if_pos hexpects]
      dsimp only
      split <;> omega
    exact .of_eq (fun _ => rfl) ⟨hspends, hw.listened hname n rfl _⟩
  · exact .of_eq (fun _ => rfl) ⟨.refl w, hw⟩

instance : S.Audible where
  drop hw ha := (agrees_drop fun he => bne_iff_ne.mp ha (Subject.listener.inj he)).agreesAt hw
  listen {handle node type once actions w} hw ha := by
    have ha : (handle != name || (once && (w.handles.find? name).isNone)) = true := ha
    by_cases hn : handle = name
    · subst hn
      obtain ⟨rfl, hname⟩ : once = true ∧ w.handles.find? handle = none := by simpa using ha
      exact listen_counted hw hname node type actions
    · refine (agrees_listen (fun other => ?_) _ _ _ _).agreesAt hw
      by_cases ho : other = name
      · exact .inr (ho ▸ beq_eq_false_iff_ne.mpr hn)
      · exact .inl fun he => ho (Subject.listener.inj he)
  bubble := bubble_counted

end Setting

theorem counting_kept (name : String) : (counting name).Kept := by
  refine Regime.Uniform.kept (fun S => ⟨fun {w} hw => ?_⟩) (fun h _ => h) (fun hr hw => ⟨hr, hw⟩)
    fun S {t w} hw _ => Setting.Agrees.agreesAt (m := Machine.update t) hw
  refine (countingFlushing name).process_agreesAt S
    (fun _ => ⟨.of_eq rfl rfl rfl rfl, hw.once, hw.one, hw.named⟩) fun x hx => ?_
  cases hx with
  | none => exact ⟨.of_eq rfl rfl rfl rfl, hw.once, hw.one, hw.named⟩
  | @all x _ h =>
    have hout : x.Spends name 0
        { x with queue := { x.queue with processing := w.queue.processing } } := .of_eq rfl rfl rfl rfl
    exact ⟨h.1.trans hout, h.2.once, h.2.one, h.2.named⟩

/-! ## Sessions -/

namespace Session

/-- What a session tells of, command by command, and the world that it comes to. -/
def record (allowed : Call → World → Bool) : List Command → World → Option (List LogEntry × World)
  | [], w => some ([], w)
  | c :: cs, w =>
    match runUnder allowed depth (.perform c) { w with log := [] } with
    | some (_, w₁) => (record allowed cs { w₁ with log := [] }).map fun x => (w₁.log.reverse ++ x.1, x.2)
    | none => none

variable {name : String}

theorem callsOf_append (entries later : List LogEntry) :
    callsOf name (entries.reverse ++ later) = callsOf name entries + callsOf name later := by
  rw [callsOf, List.countP_append, List.countP_reverse]
  rfl

/-- **What a session tells of** was to come when it began. -/
theorem calls_of_record {cs : List Command} {w w' : World} {told : List LogEntry} (hw : w.Single name)
    (h : record (namedOnce name) cs w = some (told, w')) :
    callsOf name told + w'.credit name ≤ w.credit name := by
  induction cs generalizing w told with
  | nil =>
    obtain ⟨rfl, rfl⟩ := Prod.mk.inj (Option.some.inj h)
    exact Nat.le_of_eq (Nat.zero_add _)
  | cons c cs ih =>
    rw [record] at h
    split at h
    · next r w₁ hr =>
      obtain ⟨⟨later, w₂⟩, hrest, he⟩ := Option.map_eq_some_iff.mp h
      obtain ⟨rfl, rfl⟩ := Prod.mk.inj he
      have hstart : ({ w with log := [] } : World).Single name := ⟨hw.once, hw.one, hw.named⟩
      obtain ⟨-, -, hran, hsingle⟩ :=
        Regime.run_agrees (counting_kept name) (namedOnce name) (fun _ _ _ h => h) depth hstart hr
      have hnext : ({ w₁ with log := [] } : World).Single name :=
        ⟨hsingle.once, hsingle.one, hsingle.named⟩
      have hlater := ih hnext hrest
      have hcommand := hran.credit
      -- what is told of before the log begins anew is told of there
      have hcleared : ∀ x : World, x.credit name = callsOf name x.log + ({ x with log := [] } : World).credit name :=
        fun x => (congrArg _ (Nat.zero_add _)).symm
      have hbefore := hcleared w
      have hafter := hcleared w₁
      dsimp only at hlater ⊢
      rw [callsOf_append]
      omega
    · exact absurd h nofun

/-- **A listener that is to be called once is called at most once** in a session, wherever it is registered and
whatever is dispatched, as long as its name is given to one listener only. -/
theorem calls_le_one {cs : List Command} {w : World} {told : List LogEntry}
    (h : record (namedOnce name) cs World.empty = some (told, w)) : callsOf name told ≤ 1 := by
  have hnobody : ∀ {n slot l}, ¬ World.empty.document.Registers name n slot l := fun h => nomatch h.1
  have hsingle : World.empty.Single name :=
    ⟨fun h => absurd h hnobody, fun h => absurd h hnobody, fun h => absurd h hnobody⟩
  have hcalls := calls_of_record hsingle h
  have hexpects : World.empty.Expects name := .inr rfl
  have hstart : World.empty.credit name = 1 := by
    rw [World.credit, if_pos hexpects]
    rfl
  omega

end Session

end ReactiveViews
