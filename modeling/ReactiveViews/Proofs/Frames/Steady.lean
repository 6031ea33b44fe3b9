import ReactiveViews.Proofs.Frames.Core
/-!
# What makes others act

Telling subscribers, writing a property, splicing an array and
publishing its splices all write something that observers may have read and then tell
these of it. In between an invariant may fail that speaks of what was read. So this is
where a regime has work to do of its own. A setting is *steady* if these computations
keep to it, and all that the machine does besides is made of them and of listed
changes. Under a writable regime only telling subscribers is left to be shown, and under a
plain one nothing is. So it is with moving a context, where whoever has got hold of one may
move it.
-/

namespace ReactiveViews.Setting

open Machine

variable {α : Type} {G : Regime} {S : Setting G}

/-- **Prompt.** Emptying the queue at once, when something has been queued that asks for it, keeps to
the setting. -/
class Prompt (S : Setting G) : Prop where
  pressed {w w' : World} : G.Inv w → World.Queued G.Mild w .runNow w' →
    @Leads FlushReport G S (Machine.call .settle) w' fun _ w'' => G.Rel w w'' ∧ G.Inv w''

/-- **Steady.** Computations that make others act keep to the setting. -/
class Steady (S : Setting G) : Prop extends S.Prompt where
  notify (n : NotifierId) {change : Change} (h : change.history = []) : S.Agrees (notify n change)
  setProperty (o : ObjectId) (name : String) (value : Value) :
    S.Agrees (setProperty o name value)
  spliceArray (a : ArrayId) (index deleteCount : Nat) (added : List Value) :
    S.Agrees (spliceArray a index deleteCount added)
  reorderItems (a : ArrayId) {f : List Value → List Value} (hf : f [] = []) :
    S.Agrees (reorderItems a f)
  flushSplices (a : ArrayId) : S.Agrees (flushSplices a)

/-- Something is queued, and what then has to be done is done. -/
theorem queued_agreesAt [hS : S.Prompt] {m : Machine Unit} {w w₁ : World} {next : FollowUp}
    (hw : G.Inv w) (hq : World.Queued G.Mild w next w₁)
    (hm : ∀ calls, m calls w = followUp next calls w₁) : S.AgreesAt m w := by
  by_cases h : next = .runNow
  · subst h
    have hf : S.Leads (followUp .runNow) w₁ fun _ w' => G.Rel w w' ∧ G.Inv w' :=
      (hS.pressed hw hq).bind (fun _ _ h => h) fun _ _ h => .of_eq (fun _ => rfl) h
    exact hf.congr hm
  · exact Leads.of_eq (fun calls => (hm calls).trans (followUp_apply calls w₁ h))
      (G.change hw (.queued hq h))

theorem enqueue_agreesAt [S.Prompt] {w : World} {t : Task} (hw : G.Inv w)
    (ht : w.Calm G.Mild t) : S.AgreesAt (enqueue t) w :=
  queued_agreesAt hw (.accept ht) fun _ => rfl

instance [S.Prompt] (t : TaskId) : S.Agrees (enqueue (.scripted t)) :=
  ⟨fun hw => enqueue_agreesAt hw trivial⟩

instance [hG : G.Open] [S.Prompt] (a : ArrayId) : S.Agrees (enqueue (.splices a)) :=
  ⟨fun hw => enqueue_agreesAt hw hG.behavior⟩

theorem notify_agrees [h : S.Steady] (n : NotifierId) {change : Change} (hc : change.history = []) :
    S.Agrees (notify n change) :=
  h.notify n hc

instance [S.Steady] (n : NotifierId) (name : String) : S.Agrees (notify n (.property name)) :=
  notify_agrees n rfl

instance [S.Steady] (n : NotifierId) (name : String) : S.Agrees (notify n (.signal name)) :=
  notify_agrees n rfl

instance [h : S.Steady] (o : ObjectId) (name : String) (value : Value) :
    S.Agrees (setProperty o name value) :=
  h.setProperty o name value

instance [h : S.Steady] (a : ArrayId) (index deleteCount : Nat) (added : List Value) :
    S.Agrees (spliceArray a index deleteCount added) :=
  h.spliceArray a index deleteCount added

theorem reorderItems_agrees [h : S.Steady] (a : ArrayId) {f : List Value → List Value}
    (hf : f [] = []) : S.Agrees (reorderItems a f) :=
  h.reorderItems a hf

instance [h : S.Steady] (a : ArrayId) : S.Agrees (flushSplices a) := h.flushSplices a

instance [S.Steady] (name : String) : S.Agrees (sendSignal name) := by
  unfold sendSignal
  refine .get fun w hw => ?_
  split
  · exact Agrees.agreesAt hw
  · exact Agrees.agreesAt hw

instance [S.Steady] (a : ArrayId) (v : Value) : S.Agrees (pushItem a v) := by
  unfold pushItem
  infer_instance

instance [S.Steady] (a : ArrayId) (index : Nat) : S.Agrees (removeItem a index) := by
  unfold removeItem
  infer_instance

instance [S.Steady] (a : ArrayId) : S.Agrees (popItem a) := by
  unfold popItem
  infer_instance

instance [S.Steady] (a : ArrayId) (index : Nat) (v : Value) : S.Agrees (putItem a index v) := by
  unfold putItem
  infer_instance

/-- Writing a property keeps to the setting if storing it does, and telling subscribers. -/
theorem setProperty_agrees [G.Open] {o : ObjectId} {name : String} {value : Value}
    (hs : S.Agrees (storeField o name value))
    (hn : ∀ n, S.Agrees (notify n (.property name))) : S.Agrees (setProperty o name value) := by
  unfold Machine.setProperty
  refine .bind fun type => .bind fun accessor => ?_
  split
  · infer_instance
  · refine .bind fun old => ?_
    split
    · infer_instance
    · refine .bind fun _ => ?_
      extract_lets tell
      have ht : ∀ u, S.Agrees (tell u) := by
        intro u
        refine .bind fun notifier => ?_
        split
        · infer_instance
        · infer_instance
      split
      · exact .bind ht
      · exact ht ()

/-- So does moving a context. -/
theorem updatePosition_agrees [G.Open] {c : ContextId} {index length : Nat}
    (hm : S.Agrees (modifyContext c fun s => { s with index, length }))
    (hn : ∀ n name, S.Agrees (notify n (.property name))) :
    S.Agrees (updatePosition c index length) := by
  unfold Machine.updatePosition
  refine .bind fun old => .bind fun _ => ?_
  split
  · infer_instance
  · next n _ =>
    extract_lets second
    have hs : ∀ u, S.Agrees (second u) := fun u => inferInstanceAs (S.Agrees (ite _ _ _))
    split
    · have hn := agrees_changing (S := S) (l := if old.length ≠ length then
        [.changing (.context c) "length"] else []) (by split <;> simp) (hn n "index")
      exact .bind hs
    · exact hs ()

instance [G.Open] [G.Accessible] [S.Steady] (c : ContextId) (index length : Nat) :
    S.Agrees (updatePosition c index length) :=
  updatePosition_agrees (.access fun w => .place w c index length) fun _ _ => inferInstance

/-- **Telling.** Telling subscribers keeps to the setting. -/
class Telling (S : Setting G) : Prop where
  notify (n : NotifierId) (change : Change) : S.Agrees (notify n change)

/-! ## Plain regimes -/

instance [G.Plain] (change : Change) (l : List Subscriber) : S.Agrees (deliverAll change l) := by
  induction l with
  | nil =>
    unfold deliverAll
    infer_instance
  | cons s l ih =>
    unfold deliverAll
    infer_instance

instance [G.Plain] : S.Telling := ⟨fun n change => by
  unfold Machine.notify
  infer_instance⟩

/-! ## Writable regimes -/

namespace Writable

variable [G.Writable] [hS : S.Telling]

instance notify (n : NotifierId) (change : Change) : S.Agrees (notify n change) :=
  hS.notify n change

theorem setProperty (o : ObjectId) (name : String) (value : Value) :
    S.Agrees (setProperty o name value) :=
  setProperty_agrees (.write fun w => .storeField w o name value) fun _ => inferInstance

instance [S.Prompt] (a : ArrayId) (s : Splice) : S.Agrees (recordSplice a s) := by
  unfold recordSplice
  refine .get fun w hw => ?_
  split
  · exact Agrees.agreesAt hw
  · next observer ho =>
    split
    · exact Agrees.agreesAt hw
    · have hq : S.Agrees (if observer.needsQueue then enqueue (.splices a) else pure ⟨⟩) :=
        inferInstance
      exact .of_write hw (.takeUp w a s ho) hq fun _ => rfl

instance (a : ArrayId) (items : List Value) : S.Agrees (setItems a items) :=
  .write fun w => .items w a items

theorem spliceArray [S.Prompt] (a : ArrayId) (index deleteCount : Nat) (added : List Value) :
    S.Agrees (spliceArray a index deleteCount added) := by
  unfold Machine.spliceArray
  infer_instance

instance replaceItems [S.Prompt] (a : ArrayId) (added : List Value) : S.Agrees (replaceItems a added) := by
  unfold Machine.replaceItems
  infer_instance

instance reorderItems [S.Prompt] (a : ArrayId) (f : List Value → List Value) :
    S.Agrees (reorderItems a f) := by
  unfold Machine.reorderItems
  infer_instance

theorem flushSplices (a : ArrayId) : S.Agrees (flushSplices a) := by
  unfold Machine.flushSplices
  refine .get fun w hw => ?_
  split
  · exact Agrees.agreesAt hw
  · next observer ho =>
    split
    · exact Agrees.agreesAt hw
    · exact .overwrite hw (.handOver w a ho) (fun _ => rfl) inferInstance

instance [S.Prompt] : S.Steady where
  notify n _ _ := notify n _
  setProperty := setProperty
  spliceArray := spliceArray
  reorderItems a _ _ := reorderItems a _
  flushSplices := flushSplices

end Writable

instance [hG : G.Free] : S.Prompt where
  pressed hw hq := by
    obtain ⟨hr, hi⟩ := hG.pressed hw hq
    have ha : @AgreesAt FlushReport G S (Machine.call .settle) _ := Agrees.agreesAt hi
    exact ha.since hr

end ReactiveViews.Setting
