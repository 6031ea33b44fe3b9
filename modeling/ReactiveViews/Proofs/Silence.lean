import ReactiveViews.Proofs.Publishing
/-!
# Changes of nothing are silent

A call that takes nothing out of an array and puts nothing in does nothing at all: no splice is recorded, nothing is
queued and nobody is told (`Alteration.run_of_idle`). Splices are recorded in three places. Two of them look whether
there is anything to record. The third records whatever it is given, so there is one exception: replacing the
items of an empty array by nothing is recorded, and told like a change (`Alteration.run_replace_nothing`).

As long as nobody does that (`replacesSomething`), every splice that waits, that is told to anybody or that has been
heard takes something out or puts something in. Merging two splices keeps that: what is merged has the items of both
(`Splice.Substantial.entered`). And an array that is published tells nobody anything, or first some splices that each
change something and then the length (`World.Publishes`).
-/

namespace ReactiveViews

namespace Splice

/-- **Substantial.** Each splice takes something out or puts something in. -/
def Substantial (history : List Splice) : Prop := ∀ s ∈ history, s.isEmpty = false

namespace Substantial

variable {history history' : List Splice} {s : Splice}

theorem nil : Substantial [] := fun _ hs => absurd hs List.not_mem_nil

theorem single (hs : s.isEmpty = false) : Substantial [s] := fun _ hx => List.mem_singleton.mp hx ▸ hs

/-- **Merging makes no empty splice**: what is merged takes out what the earlier splice took out, and puts in the
items of both. -/
theorem entered (h : Substantial history) (hs : s.isEmpty = false) (he : Entered s history history') :
    Substantial history' := by
  cases he with
  | last =>
    exact List.forall_mem_append.mpr ⟨h, single hs⟩
  | @merged earlier last _ =>
    obtain ⟨hearlier, hlast⟩ := List.forall_mem_append.mp h
    refine List.forall_mem_append.mpr ⟨hearlier, single ?_⟩
    have hlast : last.isEmpty = false := hlast last (List.mem_singleton_self last)
    simp only [isEmpty, Bool.and_eq_false_iff, List.isEmpty_eq_false_iff, ne_eq, List.append_eq_nil_iff] at hlast ⊢
    exact hlast.imp_right fun hne h => hne h.1

theorem append (h : Substantial history) (hs : s.isEmpty = false) : Substantial (Splice.append history s) :=
  h.entered hs (entered_append history s)

end Substantial

theorem append_ne_nil (history : List Splice) (s : Splice) : append history s ≠ [] := by
  have he := entered_append history s
  generalize append history s = history' at he
  cases he <;> simp

/-- Replacing some items, or by some, changes something. -/
theorem reset_isEmpty {items added : List Value} (h : items ≠ [] ∨ added ≠ []) : (reset items added).isEmpty = false := by
  simpa [isEmpty, reset, or_iff_not_imp_left] using h

theorem removed_cut (items : List Value) (index deleteCount : Nat) (added : List Value) :
    (cut items index deleteCount added).removed = (items.drop index).take deleteCount := by
  have hdrop : items.drop (min index items.length) = items.drop index := by
    obtain h | h := Nat.le_total index items.length
    · rw [Nat.min_eq_left h]
    · rw [Nat.min_eq_right h, List.drop_length, List.drop_eq_nil_of_le h]
  exact congrArg (List.take deleteCount) hdrop

end Splice

/-! ## Calls that change nothing -/

namespace World

variable {w : World} {a : ArrayId}

/-- Replacing the items of an array by themselves is nothing. -/
theorem withItems_self (ha : a.index < w.arrays.size) : w.withItems a (w.itemsOf a) = w := by
  unfold withItems
  rw [Store.modify_eq_self ha rfl]

end World

/-- **Alteration.** The calls by which the items of an array are changed. -/
inductive Alteration
  | push (v : Value)
  | pop
  | shift
  | unshift (v : Value)
  | insert (index : Nat) (v : Value)
  | remove (index : Nat)
  | put (index : Nat) (v : Value)
  | splice (index deleteCount : Nat) (added : List Value)
  | clear
  | replace (added : List Value)
  | reverse
  | sort (key : Expr) (order : SortOrder) (descending : Bool)

namespace Alteration

open Machine

/-- What a call does. -/
def run (a : ArrayId) : Alteration → Machine Unit
  | push v => pushItem a v
  | pop => do
    let _ ← popItem a
  | shift => do
    let _ ← removeItem a 0
  | unshift v => do
    let _ ← spliceArray a 0 0 [v]
  | insert index v => do
    let _ ← spliceArray a index 0 [v]
  | remove index => do
    let _ ← removeItem a index
  | put index v => do
    let _ ← putItem a index v
  | splice index deleteCount added => do
    let _ ← spliceArray a index deleteCount added
  | clear => do
    let items ← read (·.itemsOf a)
    let _ ← spliceArray a 0 items.length []
  | replace added => replaceItems a added
  | reverse => reorderItems a List.reverse
  | sort key order descending => sortItems a key order descending

/-- The items that a call takes out. Whoever reorders items takes them all out. -/
def takenOut (items : List Value) : Alteration → List Value
  | push _ | unshift _ | insert _ _ => []
  | pop => items.getLast?.toList
  | shift => items.take 1
  | remove index | put index _ => (items.drop index).take 1
  | splice index deleteCount _ => (items.drop index).take deleteCount
  | clear | replace _ | reverse | sort _ _ _ => items

/-- The items that a call puts in, up to their order. -/
def putIn (items : List Value) : Alteration → List Value
  | push v | unshift v | insert _ v => [v]
  | put index v => if index < items.length then [v] else []
  | splice _ _ added | replace added => added
  | reverse | sort _ _ _ => items
  | pop | shift | remove _ | clear => []

/-- **Idle.** A call takes nothing out and puts nothing in. -/
def Idle (items : List Value) (m : Alteration) : Prop := m.takenOut items = [] ∧ m.putIn items = []

variable {w : World} {a : ArrayId}

/-- What a computation gives may be thrown away. -/
theorem discard_apply {α : Type} {m : Machine α} {calls : Calls} {w' : World} {x : α}
    (h : m calls w = some (.ok x, w')) : (m >>= fun _ => pure ()) calls w = some (.ok (), w') := by
  rw [bind_apply, h]
  rfl

/-- Splicing that changes nothing does nothing. -/
theorem spliceArray_of_idle (ha : a.index < w.arrays.size) {index deleteCount : Nat}
    (h : ((w.itemsOf a).drop index).take deleteCount = []) (calls : Calls) :
    spliceArray a index deleteCount [] calls w = some (.ok [], w) := by
  let s := Splice.cut (w.itemsOf a) index deleteCount []
  have hremoved : s.removed = [] := (Splice.removed_cut _ _ _ _).trans h
  have he : s.isEmpty = true := by
    rw [Splice.isEmpty, hremoved]
    rfl
  have hs : spliceArray a index deleteCount [] calls w =
      (if !s.isEmpty then recordSplice a s >>= fun _ => pure s.removed else pure s.removed :
        Machine (List Value)) calls (w.withItems a (s.apply (w.itemsOf a))) := rfl
  rw [hs, if_neg (by simp [he]), Splice.apply_of_isEmpty he, World.withItems_self ha, hremoved]
  rfl

/-- Reordering an array that is empty does nothing. -/
theorem reorderItems_of_idle (ha : a.index < w.arrays.size) {f : List Value → List Value} (hf : f [] = [])
    (h : w.itemsOf a = []) (calls : Calls) : reorderItems a f calls w = some (.ok (), w) := by
  have hr : reorderItems a f calls w =
      (if !(w.itemsOf a).isEmpty then recordSplice a (.reset (w.itemsOf a) (f (w.itemsOf a)))
        else pure ⟨⟩ : Machine Unit) calls (w.withItems a (f (w.itemsOf a))) := rfl
  have hw : w.withItems a [] = w := h ▸ World.withItems_self ha
  rw [hr, h, hf, hw]
  rfl

/-- Taking an item out where there is none does nothing. -/
theorem removeItem_of_idle {index : Nat} (h : (w.itemsOf a).length ≤ index) (calls : Calls) :
    removeItem a index calls w = some (.ok none, w) := by
  unfold removeItem
  rw [bind_apply, read_apply]
  dsimp only
  rw [if_neg (Nat.not_lt.mpr h)]
  rfl

theorem length_le_of_take_drop {items : List Value} {index : Nat} (h : (items.drop index).take 1 = []) :
    items.length ≤ index := by
  obtain h | h := List.take_eq_nil_iff.mp h
  · exact absurd h Nat.one_ne_zero
  · exact List.drop_eq_nil_iff.mp h

/-- Where nobody observes an array nothing is recorded. -/
theorem recordSplice_of_unobserved (ho : (w.arrays.get a).observer = none) (s : Splice) (calls : Calls) :
    recordSplice a s calls w = some (.ok (), w) := by
  unfold recordSplice
  rw [bind_apply, get_apply]
  dsimp only
  rw [ho]
  rfl

/-- **The exception**: whoever replaces nothing by nothing has a splice recorded that changes nothing. -/
theorem run_replace_nothing (ha : a.index < w.arrays.size) (h : w.itemsOf a = []) (calls : Calls) :
    (replace []).run a calls w = recordSplice a ⟨0, [], []⟩ calls w := by
  have hr : (replace []).run a calls w =
      recordSplice a (.reset (w.itemsOf a) []) calls (w.withItems a []) := rfl
  have hw : w.withItems a [] = w := h ▸ World.withItems_self ha
  rw [hr, h, hw]
  rfl

/-- **A call that changes nothing does nothing**: nothing is recorded or queued, and nobody is told. -/
theorem run_of_idle (ha : a.index < w.arrays.size) {m : Alteration} (h : m.Idle (w.itemsOf a))
    (hr : m = .replace [] → (w.arrays.get a).observer = none) (calls : Calls) :
    m.run a calls w = some (.ok (), w) := by
  obtain ⟨ht, hp⟩ := h
  cases m with
  | push | unshift | insert => exact absurd hp (List.cons_ne_nil _ _)
  | pop =>
    have hn : w.itemsOf a = [] := by simpa [takenOut] using ht
    have hpop : popItem a calls w = some (.ok none, w) := by
      unfold popItem
      rw [bind_apply, read_apply]
      dsimp only
      rw [hn]
      rfl
    exact discard_apply hpop
  | shift =>
    have hn : (w.itemsOf a).length ≤ 0 := length_le_of_take_drop ht
    exact discard_apply (removeItem_of_idle hn calls)
  | remove index => exact discard_apply (removeItem_of_idle (length_le_of_take_drop ht) calls)
  | put index v =>
    have hput : putItem a index v calls w = some (.ok none, w) := by
      unfold putItem
      rw [bind_apply, read_apply]
      dsimp only
      rw [if_neg (Nat.not_lt.mpr (length_le_of_take_drop ht))]
      rfl
    exact discard_apply hput
  | splice index deleteCount added =>
    obtain rfl : added = [] := hp
    exact discard_apply (spliceArray_of_idle ha ht calls)
  | clear =>
    have hn : w.itemsOf a = [] := ht
    exact discard_apply (spliceArray_of_idle ha (by simp [hn]) calls)
  | replace added =>
    obtain rfl : added = [] := hp
    rw [run_replace_nothing ha ht, recordSplice_of_unobserved (hr rfl)]
  | reverse => exact reorderItems_of_idle ha rfl ht calls
  | sort key order descending =>
    have hn : w.itemsOf a = [] := ht
    have hkeys : collect (sortKey key) (w.itemsOf a) calls w = some (.ok [], w) := by
      rw [hn]
      rfl
    show sortItems a key order descending calls w = _
    unfold sortItems
    rw [bind_apply, read_apply]
    dsimp only
    rw [bind_apply, hkeys]
    dsimp only
    rw [bind_apply, get_apply]
    dsimp only
    refine reorderItems_of_idle ha ?_ hn calls
    rfl

end Alteration

/-! ## What waits and what has been told -/

/-- The splices that a call tells of. -/
def Call.history : Call → List Splice
  | .deliver _ change => change.history
  | _ => []

/-- **Substantial.** Every splice that waits to be published changes something, and so does every splice that a
scripted subscriber has been told. An array that has asked for an update has something to publish. -/
structure World.Substantial (w : World) : Prop where
  waits : ∀ a o, (w.arrays.get a).observer = some o → Splice.Substantial o.pending
  asked : ∀ a o, (w.arrays.get a).observer = some o → o.needsQueue = false → o.pending ≠ []
  told : ∀ s, ∀ change ∈ (w.subscribers.get s).told, Splice.Substantial change.history

namespace World.Substantial

variable {w w' : World} {Mild : Subject → Prop}

theorem pending (h : w.Substantial) (a : ArrayId) : Splice.Substantial (w.pending a) := by
  unfold World.pending
  split
  · next o ho => exact h.waits a o ho
  · exact .nil

theorem heard (h : w.Substantial) (s : SubscriberId) : Splice.Substantial (w.heard s) := by
  intro x hx
  obtain ⟨change, hc, hx⟩ := List.mem_flatMap.mp hx
  exact h.told s change (List.mem_reverse.mp hc) x hx

/-- A step after which nobody observes an array but who did so before or begins to, and nobody has been told
anything. -/
theorem of_observers (h : w.Substantial)
    (ho : ∀ a o, (w'.arrays.get a).observer = some o →
      (w.arrays.get a).observer = some o ∨ o.pending = [] ∧ o.needsQueue = true)
    (ht : ∀ s, (w'.subscribers.get s).told = (w.subscribers.get s).told) : w'.Substantial where
  waits a o hw' := by
    obtain hw | ⟨hn, -⟩ := ho a o hw'
    · exact h.waits a o hw
    · exact hn ▸ .nil
  asked a o hw' hq := by
    obtain hw | ⟨-, hg⟩ := ho a o hw'
    · exact h.asked a o hw hq
    · exact absurd (hg.symm.trans hq) nofun
  told s := ht s ▸ h.told s

theorem of_arrays (h : w.Substantial) (ha : w'.arrays = w.arrays)
    (ht : ∀ s, (w'.subscribers.get s).told = (w.subscribers.get s).told) : w'.Substantial :=
  h.of_observers (fun _ _ hw => .inl (ha ▸ hw)) ht

theorem of_eq (h : w.Substantial) (ha : w'.arrays = w.arrays) (hs : w'.subscribers = w.subscribers) :
    w'.Substantial :=
  h.of_arrays ha fun _ => by rw [hs]

theorem of_change (h : w.Substantial) (hc : World.Change Mild w w') : w'.Substantial := by
  have ht := (LedgerStep.of_change hc).told
  cases hc with
  | newArray items =>
    refine h.of_observers (fun a o ho => .inl ?_) ht
    by_cases he : a = (w.arrays.add ⟨items, none⟩).1
    · rw [he] at ho
      exact absurd ((congrArg ArrayState.observer (Store.get_add_self _ _)).symm.trans ho) nofun
    · exact (congrArg ArrayState.observer (Store.get_add_of_ne _ _ a he)).symm.trans ho
  | observeArray a _ _ =>
    refine h.of_observers (fun b o ho => ?_) ht
    replace ho : ((w.arrays.modify a _).get b).observer = some o := ho
    rw [Store.get_modify] at ho
    split at ho
    · exact .inr (Option.some.inj ho ▸ ⟨rfl, rfl⟩)
    · exact .inl ho
  | queued hq hn =>
    refine h.of_arrays ((arrays_follow _ _).trans ?_) ht
    cases hq <;> rfl
  | ask scheduler => exact h.of_arrays (arrays_follow w (.schedule scheduler)) ht
  | request => exact h.of_arrays (arrays_follow _ _) ht
  | created hnew => exact h.of_arrays (by rw [hnew.rest]) ht
  | _ => exact h.of_arrays rfl ht

theorem of_setup (h : w.Substantial) (hc : World.Setup w w') : w'.Substantial :=
  h.of_arrays (by cases hc <;> rfl) (LedgerStep.of_setup hc).told

theorem of_adjustment (h : w.Substantial) (hc : World.Adjustment w w') : w'.Substantial := by
  refine h.of_arrays ?_ (LedgerStep.of_adjustment hc).told
  cases hc with
  | await => exact arrays_follow _ _
  | _ => rfl

theorem of_queued {next : FollowUp} (h : w.Substantial) (hc : World.Queued Mild w next w') : w'.Substantial :=
  h.of_arrays (by cases hc <;> rfl) (LedgerStep.of_queued hc).told

theorem of_access (h : w.Substantial) (hc : World.Access w w') : w'.Substantial := by
  cases hc <;> exact h.of_eq rfl rfl

theorem withItems (h : w.Substantial) (a : ArrayId) (items : List Value) : (w.withItems a items).Substantial :=
  h.of_observers (fun b _ ho => .inl ((observer_withItems w a b items).symm.trans ho)) fun _ => rfl

/-- The observer of one array comes to another state. -/
theorem setObserver (h : w.Substantial) {a : ArrayId} {o : ArrayObserver}
    (hp : Splice.Substantial o.pending) (hg : o.needsQueue = false → o.pending ≠ []) :
    ({ w with arrays := w.arrays.modify a fun s => { s with observer := some o } } : World).Substantial := by
  have hcases : ∀ b p, ((w.arrays.modify a fun s => { s with observer := some o }).get b).observer = some p →
      p = o ∨ (w.arrays.get b).observer = some p := by
    intro b p hb
    rw [Store.get_modify] at hb
    split at hb
    · exact .inl (Option.some.inj hb).symm
    · exact .inr hb
  refine ⟨fun b p hb => ?_, fun b p hb hq => ?_, h.told⟩
  · obtain rfl | hb := hcases b p hb
    · exact hp
    · exact h.waits b p hb
  · obtain rfl | hb := hcases b p hb
    · exact hg hq
    · exact h.asked b p hb hq

/-- What is told is kept. -/
theorem tell (h : w.Substantial) (s : SubscriberId) {change : ReactiveViews.Change}
    (hc : Splice.Substantial change.history) : (World.told w s change).Substantial := by
  refine ⟨h.waits, h.asked, fun s' x hx => ?_⟩
  unfold World.told at hx
  rw [Store.get_set] at hx
  split at hx
  · next he =>
    obtain rfl | hx := List.mem_cons.mp hx
    · exact hc
    · exact h.told s x hx
  · exact h.told s' x hx

end World.Substantial

/-! ## The regime -/

/-- Nobody replaces the items of an array that is empty and observed by nothing. -/
def replacesSomething : Call → World → Bool
  | .perform (.array (.replace handle [])), w =>
    match w.handles.find? handle with
    | some (.array a) => !((w.itemsOf a).isEmpty && (w.arrays.get a).observer.isSome)
    | _ => true
  | _, _ => true

/-- What has been made stays. -/
def World.Stays (w w' : World) : Prop := w.behaviors.size ≤ w'.behaviors.size

theorem World.Stays.refl (w : World) : w.Stays w := Nat.le_refl _

theorem World.Stays.trans {w w₁ w₂ : World} (h : w.Stays w₁) (h' : w₁.Stays w₂) : w.Stays w₂ := Nat.le_trans h h'

/-- **The regime of changes.** What is told changes something. -/
def changing : Regime where
  allowed := replacesSomething
  Mild _ := True
  Inv := World.Substantial
  Rel := World.Stays
  Entry c w := w.Substantial ∧ Splice.Substantial c.history
  Exit _ w _ w' := w.Stays w' ∧ w'.Substantial
  refl := .refl
  trans := .trans
  entry {c _} hc _ h := by
    cases c with
    | deliver => exact hc.elim
    | _ => exact ⟨h, .nil⟩
  exit _ _ _ h := h
  change hi hc := ⟨hc.size_behaviors, hi.of_change hc⟩
  enter hs hi := by cases hs <;> exact hi.of_eq rfl rfl
  leave hs _ h hi := by cases hs <;> exact ⟨h, hi.of_eq rfl rfl⟩
  grown h := h
  light _ _ := .inr fun _ => trivial
  takes _ _ := .inr trivial
  calledBack _ _ := .inr trivial
  watcher _ _ := .inr fun _ => trivial
  behaviors _ _ _ := trivial
  observers _ _ _ := .inr fun _ => trivial
  aspects _ _ _ := trivial

instance (name : String) : changing.Slight (.listener name) := ⟨trivial⟩

instance : changing.Slight .cues := ⟨trivial⟩

instance : changing.Loose where
  tether _ := trivial
  lists _ := trivial
  view _ _ := trivial

instance : changing.Accessible where
  entry {c _} hc h := by
    cases c with
    | deliver => exact absurd rfl hc
    | _ => exact ⟨h, .nil⟩
  exit _ _ h := h
  access hi hc := ⟨by cases hc <;> exact Nat.le_refl _, hi.of_access hc⟩

instance : changing.Free where
  tickets := trivial
  behavior _ := trivial
  aspect _ _ := trivial
  setup hi hc := ⟨by cases hc <;> exact Nat.le_refl _, hi.of_setup hc⟩
  flush {c _} hc h := by
    cases c with
    | deliver => exact hc.elim
    | _ => exact ⟨h, .nil⟩
  flushed _ _ h := h
  pressed hi hc := ⟨Nat.le_of_eq (congrArg Store.size hc.behaviors.symm), hi.of_queued hc⟩
  adjust hi hc := ⟨Nat.le_of_eq (congrArg Store.size hc.behaviors.symm), hi.of_adjustment hc⟩

namespace Setting.Changing

open Machine World

variable {S : Setting changing} {w w' : World}

/-! ### Telling -/

theorem agrees_deliverAll {change : Change} (hc : Splice.Substantial change.history) (l : List Subscriber) :
    S.Agrees (deliverAll change l) := by
  induction l with
  | nil =>
    unfold deliverAll
    infer_instance
  | cons x l ih =>
    have hfirst : S.Agrees (holding ((x :: l).map .subscriber) (Machine.call (.deliver x change))) := by
      have hs : ∀ w, Scope changing.Mild w _ _ := fun w =>
        .hold ((x :: l).map .subscriber) (by simp) (by simp) fun o _ => Regime.Open.light changing w o
      refine ⟨fun {w} hw => .scoped (hs w) hw ?_⟩
      have hentry : changing.Entry (.deliver x change) { w with held := (x :: l).map .subscriber ++ w.held } :=
        ⟨changing.enter (hs w) hw, hc⟩
      exact (Leads.call hentry).mono fun _ _ h => h
    unfold deliverAll
    infer_instance

/-- **Whoever tells splices that change something** keeps to the setting. -/
theorem agrees_notify (n : NotifierId) {change : Change} (hc : Splice.Substantial change.history) :
    S.Agrees (notify n change) := by
  have hall := agrees_deliverAll (S := S) hc
  unfold notify
  infer_instance

/-! ### Recording -/

instance (a : ArrayId) (items : List Value) : S.Agrees (setItems a items) :=
  ⟨fun hi => Leads.of_eq (fun _ => rfl) ⟨Nat.le_refl _, hi.withItems a items⟩⟩

/-- **A splice that changes something is told at once or taken up.** -/
theorem agrees_recordSplice (a : ArrayId) {s : Splice} (hs : s.isEmpty = false) : S.Agrees (recordSplice a s) := by
  unfold recordSplice
  refine .get fun w hw => ?_
  split
  · exact Agrees.agreesAt hw
  · next o ho =>
    split
    · have hnotify : S.Agrees (notify o.notifier (.splices [s])) := agrees_notify _ (.single hs)
      exact Agrees.agreesAt hw
    · have htaken : (w.takeUp a o s).Substantial :=
        hw.setObserver ((hw.waits a o ho).append hs) fun _ => Splice.append_ne_nil _ _
      have hset : S.AgreesAt (setArrayObserver a
          { o with pending := Splice.append o.pending s, needsQueue := false }) w :=
        Leads.of_eq (fun _ => rfl) ⟨Nat.le_refl _, htaken⟩
      exact hset.bind fun _ _ hw' => Agrees.agreesAt hw'

theorem spliceArray (a : ArrayId) (index deleteCount : Nat) (added : List Value) :
    S.Agrees (spliceArray a index deleteCount added) := by
  unfold Machine.spliceArray
  refine .bind fun items => ?_
  extract_lets s
  cases he : s.isEmpty with
  | true =>
    have hrest : S.Agrees (pure s.removed : Machine (List Value)) := inferInstance
    exact .bind fun _ => hrest
  | false =>
    have hrecord := agrees_recordSplice (S := S) a he
    infer_instance

theorem replaceItems_unobserved (hw : w.Substantial) {a : ArrayId} (ho : (w.arrays.get a).observer = none)
    (added : List Value) : S.AgreesAt (replaceItems a added) w := by
  have hx : ((w.withItems a added).arrays.get a).observer = none := (observer_withItems w a a added).trans ho
  have hreplace : ∀ calls, replaceItems a added calls w = some (.ok (), w.withItems a added) := fun calls =>
    Alteration.recordSplice_of_unobserved hx (.reset (w.itemsOf a) added) calls
  exact Leads.of_eq hreplace ⟨Nat.le_refl _, hw.withItems a added⟩

theorem replaceItems_agreesAt (hw : w.Substantial) {a : ArrayId} {added : List Value}
    (h : w.itemsOf a ≠ [] ∨ added ≠ []) : S.AgreesAt (replaceItems a added) w := by
  have hrecord := agrees_recordSplice (S := S) a (Splice.reset_isEmpty h)
  have hrest : S.Agrees (setItems a added >>= fun _ => recordSplice a (.reset (w.itemsOf a) added)) := inferInstance
  exact .read (hrest.agreesAt hw)

theorem reorderItems (a : ArrayId) (f : List Value → List Value) : S.Agrees (reorderItems a f) := by
  unfold Machine.reorderItems
  refine .bind fun items => ?_
  dsimp only
  cases items with
  | nil =>
    have hrest : S.Agrees (pure ⟨⟩ : Machine Unit) := inferInstance
    exact .bind fun _ => hrest
  | cons v items =>
    have hrecord : S.Agrees (recordSplice a (.reset (v :: items) (f (v :: items)))) :=
      agrees_recordSplice a (Splice.reset_isEmpty (.inl (List.cons_ne_nil _ _)))
    infer_instance

theorem flushSplices (a : ArrayId) : S.Agrees (flushSplices a) := by
  unfold Machine.flushSplices
  refine .get fun w hw => ?_
  split
  · exact Agrees.agreesAt hw
  · next o ho =>
    split
    · exact Agrees.agreesAt hw
    · have hopen : (w.handOver a o).Substantial := hw.setObserver .nil fun h => by cases h
      have hset : S.AgreesAt (setArrayObserver a { o with pending := [], needsQueue := true }) w :=
        Leads.of_eq (fun _ => rfl) ⟨Nat.le_refl _, hopen⟩
      have hsplices : S.Agrees (notify o.notifier (.splices o.pending)) := agrees_notify _ (hw.waits a o ho)
      have hlength : S.Agrees (notify o.notifier (.property "length")) := agrees_notify _ .nil
      exact hset.bind fun _ _ hw' => Agrees.agreesAt hw'

instance steady : S.Steady where
  notify n _ h := agrees_notify n (h ▸ .nil)
  setProperty o name value := by
    have hstore : S.Agrees (storeField o name value) :=
      ⟨fun {w} hi => Leads.of_eq (fun _ => rfl) ⟨Nat.le_refl _, hi.of_eq rfl rfl⟩⟩
    exact setProperty_agrees hstore fun n => agrees_notify n .nil
  spliceArray := spliceArray
  reorderItems a f _ := reorderItems a f
  flushSplices := flushSplices

/-! ### Commands -/

/-- An array that is found has a handle. -/
theorem arrayNamed_leads (handle : String) (w : World) :
    S.Leads (arrayNamed handle) w fun r w' => w' = w ∧
      ∀ a, r = .ok a → w.handles.find? handle = some (.array a) := by
  refine (lookUp_leads handle "array" _ w).mono fun r w' h => ⟨h.1, fun a ha => ?_⟩
  obtain ⟨found, hh, hr⟩ := h.2 a ha
  cases found with
  | array => exact hh.trans (congrArg _ (congrArg _ (Option.some.inj hr)))
  | object | subscriber | template | notifier | observer | context | task | node | event | view
      | listener | ticket => cases hr

/-- Where there are literals there are values. -/
theorem resolveAll_leads (hw : w.Substantial) (l : Literal) (rest : List Literal) :
    S.Leads (resolveAll (l :: rest)) w fun r w' =>
      (changing.Rel w w' ∧ changing.Inv w') ∧ ∀ values, r = .ok values → values ≠ [] := by
  have hfirst : S.AgreesAt (resolve l) w := Agrees.agreesAt hw
  unfold resolveAll
  refine Leads.bind hfirst (fun _ _ h => ⟨h, nofun⟩) fun v w₁ h₁ => ?_
  have hrest : S.AgreesAt (resolveAll rest) w₁ := Agrees.agreesAt h₁.2
  refine Leads.bind (hrest.since h₁.1) (fun _ _ h => ⟨h, nofun⟩) fun values w₂ h₂ => ?_
  refine .of_eq (fun _ => rfl) ⟨h₂, fun _ h => ?_⟩
  cases h
  exact List.cons_ne_nil v values

/-- **Where nobody replaces nothing by nothing**, replacing keeps to the setting. -/
theorem replace_agreesAt (hw : w.Substantial) {handle : String} {items : List Literal}
    (ha : replacesSomething (.perform (.array (.replace handle items))) w = true) :
    S.AgreesAt (performArray (.replace handle items)) w := by
  unfold performArray
  refine (arrayNamed_leads handle w).bind ?_ ?_
  · rintro e w' ⟨rfl, -⟩
    exact ⟨Nat.le_refl _, hw⟩
  · rintro a w' ⟨rfl, hs⟩
    have hunit : S.Agrees (pure Answer.unit : Machine Answer) := inferInstance
    cases items with
    | nil =>
      have hreplace : S.AgreesAt (replaceItems a []) w' := by
        simp only [replacesSomething, hs a rfl, Bool.not_eq_true', Bool.and_eq_false_iff, List.isEmpty_eq_false_iff,
          Option.isSome_eq_false_iff, Option.isNone_iff_eq_none] at ha
        obtain hne | ho := ha
        · exact replaceItems_agreesAt hw (.inl hne)
        · exact replaceItems_unobserved hw ho []
      exact .step (fun _ => rfl) (hreplace.bind fun _ _ h => hunit.agreesAt h)
    | cons l rest =>
      refine (resolveAll_leads hw l rest).bind (fun _ _ h => h.1) fun values w₁ h => ?_
      have hreplace : S.AgreesAt (replaceItems a values) w₁ :=
        replaceItems_agreesAt h.1.2 (.inr (h.2 values rfl))
      exact AgreesAt.since h.1.1 (hreplace.bind fun _ _ h => hunit.agreesAt h)

/-- A flush owes nothing but that what is told changes something. -/
def flushing : Flushing changing where
  Owed start _ w := start.Stays w ∧ w.Substantial
  log _ h := ⟨h.1, h.2.of_eq rfl rfl⟩
  turn h := ⟨h.2.of_eq rfl rfl, .nil⟩
  ran h _ he := ⟨Nat.le_trans h.1 he.1, he.2.of_eq rfl rfl⟩

instance : S.Agrees process := by
  refine ⟨fun {w} hw => flushing.process_agreesAt S (fun _ => ⟨Nat.le_refl _, hw.of_eq rfl rfl⟩) fun x hx => ?_⟩
  cases hx with
  | none => exact ⟨Nat.le_refl _, hw.of_eq rfl rfl⟩
  | all _ h => exact ⟨h.1, h.2.of_eq rfl rfl⟩

instance commanded : S.Commanded where
  replace hw ha := replace_agreesAt hw ha
  subscribe {s t name w} hw _ := by
    have hsubscribe : ∀ n s, S.Agrees (subscribe n (.scripted s) name) := fun n s =>
      ⟨fun {w} hi => Leads.of_eq (fun _ => rfl) ⟨Nat.le_refl _, hi.of_eq rfl rfl⟩⟩
    unfold performNotifier
    exact Agrees.agreesAt hw
  queue _ hw _ := Agrees.agreesAt hw

/-! ### Calls -/

theorem deliver_agreesAt (hw : w.Substantial) (x : Subscriber) {change : Change}
    (hc : Splice.Substantial change.history) : S.AgreesAt (deliver x change) w := by
  have hdeliver : S.Agrees (deliver x change) := agrees_deliver fun s _ => ⟨fun {w} hi => by
    have htold : (World.told w s change).Substantial := hi.tell s hc
    exact (subscriberTold_leads htold).mono fun _ _ h => h⟩
  exact hdeliver.agreesAt hw

end Setting.Changing

/-- **What is told changes something** in every session in which nobody replaces nothing by nothing. -/
theorem changing_kept : changing.Kept := by
  refine Regime.Loose.kept (fun S => inferInstance) (fun S => inferInstance) (fun _ h => h.1) (fun _ h hi => ⟨h, hi⟩)
    fun S {c w} hc hw _ => ?_
  obtain ⟨hw, hh⟩ := hw
  cases c with
  | eval | bindView | unbindView | bubble | perform => exact absurd trivial hc
  | settle => exact Setting.Agrees.agreesAt (m := Machine.settle) hw
  | drainPool => exact Setting.Agrees.agreesAt (m := Machine.drainPool) hw
  | deliver x change => exact Setting.Changing.deliver_agreesAt hw x hh
  | update t => exact Setting.Agrees.agreesAt (m := Machine.update t) hw

/-- In the empty world nothing waits, and nobody has been told anything. -/
theorem World.substantial_empty : World.empty.Substantial :=
  ⟨fun _ _ => nofun, fun _ _ => nofun, fun _ _ => nofun⟩

/-- What is told when an array is published that has taken something up. -/
def Machine.publish (a : ArrayId) (n : NotifierId) (history : List Splice) : Machine Unit := do
  holding [.changing (.array a) "length"] (notify n (.splices history))
  notify n (.property "length")

/-- **Publishing** an array tells nobody anything, whatever is called. Or it tells whoever listens what waits, which
is something and of which every splice changes something, and then that the length may have changed. -/
inductive World.Publishes (w : World) (a : ArrayId) : Prop
  | nothing (w' : World) (h : ∀ calls, Machine.flushSplices a calls w = some (.ok (), w')) (hq : w'.queue = w.queue) :
    Publishes w a
  | splices (n : NotifierId) (w' : World) (hn : w.pending a ≠ []) (hs : Splice.Substantial (w.pending a))
    (h : ∀ calls, Machine.flushSplices a calls w = Machine.publish a n (w.pending a) calls w') : Publishes w a

/-- An array that publishes later hands over what it has taken up. -/
theorem Machine.flushSplices_apply {w : World} {a : ArrayId} {o : ArrayObserver}
    (ho : (w.arrays.get a).observer = some o) (hb : o.isImmediate = false) (calls : Calls) :
    flushSplices a calls w =
      (if !o.pending.isEmpty then publish a o.notifier o.pending else pure ()) calls (w.handOver a o) := by
  unfold flushSplices
  rw [bind_apply, get_apply]
  dsimp only
  rw [ho]
  dsimp only
  rw [if_neg (by simp [hb])]
  rfl

theorem World.Substantial.publishes {w : World} (h : w.Substantial) (a : ArrayId) : w.Publishes a := by
  cases ho : (w.arrays.get a).observer with
  | none =>
    refine .nothing w (fun calls => ?_) rfl
    unfold Machine.flushSplices
    rw [Machine.bind_apply, Machine.get_apply]
    dsimp only
    rw [ho]
    rfl
  | some o =>
    have hpending : w.pending a = o.pending := by
      unfold World.pending
      rw [ho]
    cases hb : o.isImmediate with
    | true =>
      refine .nothing { w with log := .flushed :: w.log } (fun calls => ?_) rfl
      unfold Machine.flushSplices
      rw [Machine.bind_apply, Machine.get_apply]
      dsimp only
      rw [ho]
      dsimp only
      rw [if_pos hb]
      rfl
    | false =>
      have hflush := Machine.flushSplices_apply ho hb
      by_cases hn : o.pending = []
      · rw [if_neg (by simp [hn])] at hflush
        exact .nothing (w.handOver a o) hflush rfl
      · rw [if_pos (by simp [hn]), ← hpending] at hflush
        exact .splices o.notifier (w.handOver a o) (hpending ▸ hn) (h.pending a) hflush

/-- **Changes of nothing are silent.** Let nobody replace nothing by nothing in an array that is observed. Wherever a
session has got to, every splice that is told to anybody, that waits to be published or that has been heard takes
something out or puts something in. An array that has asked for an update has something to publish; publishing it tells
nobody anything, or first what waits and then the length. And a call that takes nothing out of an array and puts
nothing in leaves everything as it is: nothing is recorded or queued, and nobody is told. -/
theorem changes_of_nothing_are_silent {c : Call} {w : World} (hv : Session.Visited replacesSomething c w) :
    Splice.Substantial c.history ∧ (∀ a, Splice.Substantial (w.pending a)) ∧
      (∀ s, Splice.Substantial (w.heard s)) ∧
      (∀ a o, (w.arrays.get a).observer = some o → o.needsQueue = false → w.pending a ≠ []) ∧
      (∀ a, w.Publishes a) ∧
      ∀ a, a.index < w.arrays.size → ∀ m : Alteration, m.Idle (w.itemsOf a) →
        (m = .replace [] → (w.arrays.get a).observer = none) → ∀ calls, m.run a calls w = some (.ok (), w) := by
  obtain ⟨hw, hc⟩ := Session.entry_of_visited changing_kept World.substantial_empty hv
  refine ⟨hc, hw.pending, hw.heard, fun a o ho hq => ?_, hw.publishes, fun a ha m hm hr => m.run_of_idle ha hm hr⟩
  rw [World.pending, ho]
  exact hw.asked a o ho hq

/-- Two arrays, one of them empty, and a subscriber that has been told of a change of the other, which has been
changed again. -/
def shelvedSession : List Command :=
  [.array (.observation .buffered), .array (.create "a" [.text "x"]), .array (.create "b" []),
    .notifier (.createSubscriber "s" (.literal .null)), .notifier (.subscribe "s" (.handle "a") none),
    .notifier (.subscribe "s" (.handle "b") none), .array (.push "a" (.text "y")), .queue .process,
    .array (.push "a" (.text "z"))]

/-- Clearing the empty one is nothing. -/
theorem nothing_is_cleared : ∃ w, Session.Visited replacesSomething (.perform (.array (.clear "b"))) w ∧
    w.itemsOf ⟨1⟩ = [] ∧ (w.arrays.get ⟨1⟩).observer.isSome = true ∧
    (w.pending ⟨0⟩ ≠ [] ∧ Splice.Substantial (w.pending ⟨0⟩)) ∧
    (w.heard ⟨0⟩ ≠ [] ∧ Splice.Substantial (w.heard ⟨0⟩)) ∧
    ∀ calls, Alteration.clear.run ⟨1⟩ calls w = some (.ok (), w) := by
  have hplay : (Session.play replacesSomething shelvedSession World.empty).any (fun w =>
      (Machine.runUnder replacesSomething Session.depth (.perform (.array (.clear "b"))) { w with log := [] }).isSome &&
        ((w.itemsOf ⟨1⟩).isEmpty && (w.arrays.get ⟨1⟩).observer.isSome && !(w.pending ⟨0⟩).isEmpty &&
          !(w.heard ⟨0⟩).isEmpty && decide ((⟨1⟩ : ArrayId).index < w.arrays.size))) = true := by
    decide +kernel
  obtain ⟨w, hw, hplay⟩ := (Option.any_eq_true _ _).mp hplay
  obtain ⟨hclear, hplay⟩ := (Bool.and_eq_true _ _).mp hplay
  simp only [Bool.and_eq_true, Bool.not_eq_true', List.isEmpty_iff, List.isEmpty_eq_false_iff,
    decide_eq_true_eq] at hplay
  obtain ⟨⟨⟨⟨hitems, hobserved⟩, hpending⟩, hheard⟩, hmade⟩ := hplay
  have hv := Session.visited_of_reached (Session.reached_of_play .start hw) hclear
  obtain ⟨-, hwaits, htold, -, -, hidle⟩ := changes_of_nothing_are_silent hv
  have hclears : Alteration.clear.Idle (({ w with log := [] } : World).itemsOf ⟨1⟩) := ⟨hitems, rfl⟩
  exact ⟨_, hv, hitems, hobserved, ⟨hpending, hwaits _⟩, ⟨hheard, htold _⟩, hidle _ hmade _ hclears nofun⟩

end ReactiveViews
