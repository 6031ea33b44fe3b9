import ReactiveViews.Dom.Document
/-!
# Listeners of a node

A node keeps its listeners in numbered slots, and a slot that has been vacated is used again. Between that, a
number stands for one listener. Calling up the handlers for an event takes away only the listeners that
are to be called once (`Document.listener?_takeHandlers`), and calls every listener that is there
(`Document.mem_takeHandlers`).
-/

namespace ReactiveViews

namespace Slots

variable {α : Type}

theorem find?_remove_of_ne (s : Slots α) {slot other : Nat} (h : slot ≠ other) :
    (s.remove slot).find? other = s.find? other := by
  unfold remove
  split
  · rw [find?, find?, List.getElem?_set_ne h]
  · rfl

theorem find?_remove (s : Slots α) (slot other : Nat) :
    (s.remove slot).find? other = if other = slot then none else s.find? other := by
  split
  · next he =>
    subst he
    unfold remove
    split
    · rw [find?, Option.join_eq_none_iff, List.getElem?_set, if_pos rfl]
      split
      · exact .inr rfl
      · exact .inl rfl
    · next hn => exact hn
  · next hne => exact find?_remove_of_ne s (Ne.symm hne)

/-- What stands in a slot after something has been put in is that, or has stood there before. -/
theorem find?_insert_cases {s : Slots α} {a b : α} {slot : Nat}
    (h : (s.insert a).2.find? slot = some b) :
    (slot = (s.insert a).1 ∧ b = a) ∨ s.find? slot = some b := by
  unfold insert at h ⊢
  split at h
  · simp only [find?, List.getElem?_set] at h ⊢
    split at h
    · next he =>
      split at h
      · exact .inl ⟨he.symm, (Option.some.inj h).symm⟩
      · exact absurd h nofun
    · exact .inr h
  · simp only [find?, List.getElem?_append] at h ⊢
    split at h
    · exact .inr h
    · next hge =>
      rw [List.getElem?_singleton] at h
      split at h
      · exact .inl ⟨by omega, (Option.some.inj h).symm⟩
      · exact absurd h nofun

/-- Slots are sound if those that are vacant are there. -/
def Sound (s : Slots α) : Prop := ∀ slot ∈ s.vacant, slot < s.entries.length

instance (s : Slots α) : Decidable s.Sound := by
  unfold Sound
  infer_instance

/-- What has been put into a sound slot stands there. -/
theorem find?_insert {s : Slots α} (h : s.Sound) (a : α) :
    (s.insert a).2.find? (s.insert a).1 = some a := by
  unfold insert
  split
  · next slot rest hs =>
    rw [find?, List.getElem?_set_self (h slot (hs ▸ List.mem_cons_self))]
    rfl
  · rw [find?, List.getElem?_concat_length]
    rfl

/-- The number of an entry is its place, counted from the first number. -/
theorem mem_numbered {entries : List (Option α)} {first slot : Nat} {a : α} :
    (slot, a) ∈ numbered first entries ↔ ∃ i, slot = first + i ∧ entries[i]? = some (some a) := by
  induction entries generalizing first with
  | nil => simp [numbered]
  | cons entry rest ih =>
    have hrest : (slot, a) ∈ numbered (first + 1) rest ↔
        ∃ i, slot = first + (i + 1) ∧ (entry :: rest)[i + 1]? = some (some a) := by
      rw [ih]
      exact exists_congr fun i => by rw [Nat.add_right_comm, Nat.add_assoc, List.getElem?_cons_succ]
    rw [← Nat.or_exists_add_one, ← hrest]
    cases entry with
    | none => simp [numbered]
    | some a' => simp [numbered, eq_comm]

theorem mem_toList {s : Slots α} {slot : Nat} {a : α} :
    (slot, a) ∈ s.toList ↔ s.find? slot = some a := by
  simp [toList, mem_numbered, find?, Option.join_eq_some_iff]

/-- Entries are visited in the order of their numbers. -/
theorem pairwise_numbered (entries : List (Option α)) (first : Nat) :
    (numbered first entries).Pairwise fun a b => a.1 < b.1 := by
  induction entries generalizing first with
  | nil => exact .nil
  | cons entry rest ih =>
    cases entry with
    | none => exact ih (first + 1)
    | some a =>
      refine List.pairwise_cons.mpr ⟨fun ⟨slot, b⟩ hb => ?_, ih (first + 1)⟩
      obtain ⟨i, rfl, -⟩ := mem_numbered.mp hb
      show first < first + 1 + i
      omega

/-- Nothing is visited twice. -/
theorem nodup_toList (s : Slots α) : (s.toList.map Prod.fst).Nodup :=
  List.pairwise_map.mpr ((pairwise_numbered s.entries 0).imp Nat.ne_of_lt)

end Slots

namespace Document

variable {d : Document} {n n' : NodeId} {slot : Nat} {l : Listener} {type : String}

/-- The listener registered at a node under a number. -/
def listener? (d : Document) (n : NodeId) (slot : Nat) : Option Listener :=
  (d.get n).listeners.find? slot

theorem listeners_modifyContent (d : Document) (n n' : NodeId) (f : Content → Content) :
    ((d.modifyContent n f).get n').listeners = (d.get n').listeners := by
  rw [modifyContent, Store.get_modify]
  split
  · next he => rw [he]
  · rfl

theorem listener?_addListener (h : (d.get n).listeners.Sound) (l : Listener) :
    (d.addListener n l).2.listener? n (d.addListener n l).1 = some l := by
  rw [listener?, addListener, Store.get_modify, if_pos rfl]
  exact Slots.find?_insert h l

theorem content_addListener (d : Document) (n n' : NodeId) (l : Listener) :
    (d.addListener n l).2.content n' = d.content n' := by
  rw [content, content, addListener, Store.get_modify]
  split
  · next he => rw [he]
  · rfl

theorem content_removeListener (d : Document) (n n' : NodeId) (slot : Nat) :
    (d.removeListener n slot).content n' = d.content n' := by
  rw [content, content, removeListener, Store.get_modify]
  split
  · next he => rw [he]
  · rfl

theorem listener?_removeListener (d : Document) {other : Nat} (h : n = n' → slot ≠ other) :
    (d.removeListener n slot).listener? n' other = d.listener? n' other := by
  rw [listener?, listener?, removeListener, Store.get_modify]
  split
  · next he =>
    subst he
    exact Slots.find?_remove_of_ne _ (h rfl)
  · rfl

theorem listener?_removeListener_self (d : Document) (n : NodeId) (slot : Nat) :
    (d.removeListener n slot).listener? n slot = none := by
  rw [listener?, removeListener, Store.get_modify, if_pos rfl, Slots.find?_remove, if_pos rfl]

/-- Who is still registered was registered before. -/
theorem listener?_of_removeListener {other : Nat}
    (h : (d.removeListener n slot).listener? n' other = some l) : d.listener? n' other = some l := by
  by_cases he : n = n' ∧ slot = other
  · obtain ⟨rfl, rfl⟩ := he
    exact absurd ((listener?_removeListener_self d n slot).symm.trans h) nofun
  · rwa [listener?_removeListener d fun hn hs => he ⟨hn, hs⟩] at h

theorem mem_listenersFor :
    (slot, l) ∈ d.listenersFor n type ↔ d.listener? n slot = some l ∧ l.type = type := by
  rw [listenersFor, List.mem_filter, Slots.mem_toList, beq_iff_eq, listener?]

/-- Every listener for a type of event is called. -/
theorem mem_takeHandlers (h : d.listener? n slot = some l) :
    l.handler ∈ (d.takeHandlers n l.type).1 :=
  List.mem_map.mpr ⟨(slot, l), mem_listenersFor.mpr ⟨h, rfl⟩, rfl⟩

/-- Calling up handlers does not change what nodes are. -/
theorem content_takeHandlers (d : Document) (n n' : NodeId) (type : String) :
    (d.takeHandlers n type).2.content n' = d.content n' := by
  rw [takeHandlers]
  generalize d.listenersFor n type = found
  induction found generalizing d with
  | nil => rfl
  | cons entry rest ih =>
    rw [List.foldl_cons, ih]
    split
    · exact content_removeListener d n n' entry.1
    · rfl

/-- **What listens for good stays** when handlers are called up. -/
theorem listener?_takeHandlers (h : d.listener? n' slot = some l) (hl : l.once = false)
    (n : NodeId) (type : String) : (d.takeHandlers n type).2.listener? n' slot = some l := by
  rw [takeHandlers]
  have hother : ∀ entry ∈ d.listenersFor n type, entry.2.once = true → n = n' → entry.1 ≠ slot := by
    rintro ⟨other, l'⟩ hm ho rfl rfl
    obtain rfl := Option.some.inj ((mem_listenersFor.mp hm).1.symm.trans h)
    exact absurd (ho.symm.trans hl) (by simp)
  generalize d.listenersFor n type = found at hother
  induction found generalizing d with
  | nil => exact h
  | cons entry rest ih =>
    rw [List.foldl_cons]
    refine ih ?_ fun entry hm => hother entry (List.mem_cons_of_mem _ hm)
    split
    · next ho =>
      rw [listener?_removeListener d (hother entry List.mem_cons_self ho)]
      exact h
    · exact h

/-- Who is registered when handlers have been called up was registered before. -/
theorem listener?_of_takeHandlers (h : (d.takeHandlers n type).2.listener? n' slot = some l) :
    d.listener? n' slot = some l := by
  rw [takeHandlers] at h
  dsimp only at h
  generalize d.listenersFor n type = found at h
  induction found generalizing d with
  | nil => exact h
  | cons entry rest ih =>
    rw [List.foldl_cons] at h
    have hrest := ih h
    split at hrest
    · exact listener?_of_removeListener hrest
    · exact hrest

/-- **What is to be called once goes** when it is called up. -/
theorem listener?_takeHandlers_once (h : d.listener? n slot = some l) (hl : l.once = true) :
    (d.takeHandlers n l.type).2.listener? n slot = none := by
  refine Option.eq_none_iff_forall_ne_some.mpr fun l' hl' => ?_
  rw [takeHandlers] at hl'
  dsimp only at hl'
  have hm : (slot, l) ∈ d.listenersFor n l.type := mem_listenersFor.mpr ⟨h, rfl⟩
  have hvacant : ∀ (found : List (Nat × Listener)) (d : Document), d.listener? n slot = none →
      (found.foldl (fun d entry => if entry.2.once then d.removeListener n entry.1 else d)
        d).listener? n slot = none := by
    intro found
    induction found with
    | nil => exact fun _ h => h
    | cons entry rest ih =>
      intro d hd
      rw [List.foldl_cons]
      refine ih _ ?_
      split
      · exact Option.eq_none_iff_forall_ne_some.mpr fun l hl =>
          absurd (hd.symm.trans (listener?_of_removeListener hl)) nofun
      · exact hd
  clear h
  generalize d.listenersFor n l.type = found at hl' hm
  induction found generalizing d with
  | nil => exact absurd hm List.not_mem_nil
  | cons entry rest ih =>
    rw [List.foldl_cons] at hl'
    obtain rfl | hm := List.mem_cons.mp hm
    · rw [if_pos hl] at hl'
      exact absurd ((hvacant rest _ (listener?_removeListener_self d n slot)).symm.trans hl') nofun
    · exact ih hl' hm

/-! ## Operations that leave listeners alone -/

theorem listeners_modify (d : Document) (n : NodeId) {f : Node → Node}
    (hf : ∀ node, (f node).listeners = node.listeners) (m : NodeId) :
    ((Store.modify d n f).get m).listeners = (d.get m).listeners := by
  rw [Store.get_modify]
  split
  · next he => exact he ▸ hf _
  · rfl

theorem listeners_setChildren (d : Document) (n : NodeId) (ns : List NodeId) (m : NodeId) :
    ((d.setChildren n ns).get m).listeners = (d.get m).listeners :=
  listeners_modify d n (f := fun node => { node with children := ns }) (fun _ => rfl) m

theorem listeners_setParent (d : Document) (n : NodeId) (parent : Option NodeId) (m : NodeId) :
    ((d.setParent n parent).get m).listeners = (d.get m).listeners :=
  listeners_modify d n (f := fun node => { node with parent }) (fun _ => rfl) m

theorem listeners_foldl {α : Type} {f : Document → α → Document}
    (hf : ∀ (d : Document) a m, ((f d a).get m).listeners = (d.get m).listeners) (l : List α)
    (d : Document) (m : NodeId) : ((l.foldl f d).get m).listeners = (d.get m).listeners := by
  induction l generalizing d with
  | nil => rfl
  | cons a l ih => exact (ih (f d a)).trans (hf d a m)

theorem listeners_setParents (d : Document) (ns : List NodeId) (parent : Option NodeId) (m : NodeId) :
    ((d.setParents ns parent).get m).listeners = (d.get m).listeners :=
  listeners_foldl (fun d n m => listeners_setParent d n parent m) ns d m

theorem listeners_removeChild (d : Document) (parent child m : NodeId) :
    ((d.removeChild parent child).get m).listeners = (d.get m).listeners := by
  unfold removeChild
  split
  · rw [listeners_setParent, listeners_setChildren]
  · rfl

theorem listeners_detach (d : Document) (n m : NodeId) :
    ((d.detach n).get m).listeners = (d.get m).listeners := by
  unfold detach
  split
  · exact listeners_removeChild d _ n m
  · rfl

theorem listeners_insertBefore (d : Document) (parent child : NodeId) (reference : Option NodeId)
    (m : NodeId) : ((d.insertBefore parent child reference).get m).listeners = (d.get m).listeners := by
  unfold insertBefore
  split
  · rfl
  · rw [listeners_setChildren, listeners_setParents]
    unfold uproot
    split
    · exact listeners_setChildren d child [] m
    · exact listeners_detach d child m

/-- A new node has no listeners, and neither had it before it was made. -/
theorem listeners_create (d : Document) (c : Content) (m : NodeId) :
    ((d.create c).2.get m).listeners = (d.get m).listeners := by
  by_cases he : m = (d.create c).1
  · rw [he, create, Store.get_add_self, Store.get_next]
    rfl
  · rw [create, Store.get_add_of_ne _ _ _ he]

mutual

theorem listeners_plant (d : Document) (t : Tree) (m : NodeId) :
    ((d.plant t).2.get m).listeners = (d.get m).listeners := by
  obtain ⟨c, ts⟩ := t
  rw [plant]
  dsimp only
  rw [listeners_setChildren, listeners_plantAll (d.create c).2 (d.create c).1 ts m,
    listeners_create]

theorem listeners_plantAll (d : Document) (parent : NodeId) (ts : List Tree) (m : NodeId) :
    ((d.plantAll parent ts).2.get m).listeners = (d.get m).listeners := by
  cases ts with
  | nil => rw [plantAll]
  | cons t ts =>
    rw [plantAll]
    dsimp only
    rw [listeners_plantAll ((d.plant t).2.setParent (d.plant t).1 (some parent)) parent ts m,
      listeners_setParent, listeners_plant d t m]

end

theorem listeners_setText (d : Document) (n : NodeId) (text : String) (m : NodeId) :
    ((d.setText n text).get m).listeners = (d.get m).listeners := by
  unfold setText
  split
  · exact listeners_modifyContent d n m _
  · exact listeners_modifyContent d n m _
  all_goals
    have hempty := listeners_foldl (fun d child m => listeners_removeChild d n child m) (d.children n) d m
    dsimp only
    split
    · exact hempty
    · rw [append, listeners_insertBefore, listeners_create, hempty]

end Document

/-- Whether a handler is that of a scripted listener of a name. -/
def Handler.isOf (name : String) : Handler → Bool
  | .scripted other _ => other == name
  | .assign _ | .event _ => false

namespace Document

variable {d d' : Document} {name : String}

/-- **Nobody joins** the scripted listeners of a name: those that are registered have been registered before. -/
def NoneJoin (d : Document) (name : String) (d' : Document) : Prop :=
  ∀ ⦃n slot l⦄, d'.listener? n slot = some l → l.handler.isOf name = true → d.listener? n slot = some l

theorem NoneJoin.trans {x : Document} (h : d.NoneJoin name x) (h' : x.NoneJoin name d') :
    d.NoneJoin name d' :=
  fun _ _ _ hl ho => h (h' hl ho) ho

theorem noneJoin_of_same (h : ∀ n, (d'.get n).listeners = (d.get n).listeners) : d.NoneJoin name d' :=
  fun n slot _ hl _ => (congrArg (Slots.find? · slot) (h n)).symm.trans hl

theorem noneJoin_refl (d : Document) : d.NoneJoin name d := fun _ _ _ hl _ => hl

theorem noneJoin_addListener {l : Listener} (hl : l.handler.isOf name = false) (n : NodeId) :
    d.NoneJoin name (d.addListener n l).2 := by
  intro m slot l' h ho
  rw [listener?, addListener, Store.get_modify] at h
  split at h
  · next he =>
    subst he
    refine (Slots.find?_insert_cases h).resolve_left ?_
    rintro ⟨-, rfl⟩
    exact absurd (ho.symm.trans hl) nofun
  · exact h

theorem noneJoin_removeListener (d : Document) (n : NodeId) (slot : Nat) :
    d.NoneJoin name (d.removeListener n slot) :=
  fun _ _ _ h _ => listener?_of_removeListener h

theorem noneJoin_takeHandlers (d : Document) (n : NodeId) (type : String) :
    d.NoneJoin name (d.takeHandlers n type).2 :=
  fun _ _ _ h _ => listener?_of_takeHandlers h

end Document

end ReactiveViews
