import Mathlib.Logic.Function.Basic
import ReactiveViews.Liveness
import ReactiveViews.Proofs.Dom.Edits
import ReactiveViews.Proofs.Dom.Listeners
/-!
# Registrations

A listener is removed by the number that it was given when it was registered. The number says where a listener
stands and not which one it is: when it is gone, the next to be registered is given its number. So a number that
is kept too long stands for somebody else.

A `Roster` knows registrations by when they were made, and of each the number that it was given. It is brought
up to date with whatever happens to listeners (`Listening`), and the document shows the same listeners
(`Roster.Of`). Where a registration stands it is the last that was given its number (`Roster.Sound`). Hence the
number removes its own registration, and nothing if that is gone, as long as it has not been given again
(`Roster.Sound.unlisten`).
-/

namespace ReactiveViews

namespace Slots

variable {α β : Type}

/-- The number that is given next. -/
def next (s : Slots α) : Nat := s.vacant.head?.getD s.entries.length

theorem insert_fst (s : Slots α) (a : α) : (s.insert a).1 = s.next := by
  obtain ⟨entries, vacant⟩ := s
  cases vacant <;> rfl

/-- **Tidy.** The vacant numbers are those of slots where nothing stands. -/
structure Tidy (s : Slots α) : Prop where
  nodup : s.vacant.Nodup
  vacant : ∀ slot ∈ s.vacant, s.entries[slot]? = some none

variable {s : Slots α}

theorem tidy_empty : (empty : Slots α).Tidy := ⟨.nil, nofun⟩

/-- A number is not given while something stands under it. -/
theorem Tidy.find?_next (h : s.Tidy) : s.find? s.next = none := by
  obtain ⟨entries, vacant⟩ := s
  cases vacant with
  | nil => simp [find?, next]
  | cons slot rest =>
    have hslot := h.vacant slot List.mem_cons_self
    simp [find?, next, hslot]

theorem Tidy.find?_insert (h : s.Tidy) (a : α) (slot : Nat) :
    (s.insert a).2.find? slot = if slot = s.next then some a else s.find? slot := by
  obtain ⟨entries, vacant⟩ := s
  cases vacant with
  | nil =>
    show ((entries ++ [some a])[slot]?).join = if slot = entries.length then some a else (entries[slot]?).join
    rw [List.getElem?_append]
    split
    · next hlt => rw [if_neg (Nat.ne_of_lt hlt)]
    · next hge =>
      rw [List.getElem?_singleton]
      by_cases he : slot = entries.length
      · rw [if_pos he, if_pos (by omega)]
        rfl
      · rw [if_neg he, if_neg (by omega), List.getElem?_eq_none (by omega)]
  | cons first rest =>
    have hfirst := h.vacant first List.mem_cons_self
    have hlt : first < entries.length := (List.getElem?_eq_some_iff.mp hfirst).1
    show ((entries.set first (some a))[slot]?).join = if slot = first then some a else (entries[slot]?).join
    rw [List.getElem?_set]
    by_cases he : slot = first
    · subst he
      rw [if_pos rfl, if_pos hlt, if_pos rfl]
      rfl
    · rw [if_neg (Ne.symm he), if_neg he]

theorem remove_of_find? {slot : Nat} (h : s.find? slot = none) : s.remove slot = s := by
  rw [remove, h]

theorem Tidy.insert (h : s.Tidy) (a : α) : (s.insert a).2.Tidy := by
  obtain ⟨entries, vacant⟩ := s
  cases vacant with
  | nil => exact ⟨.nil, nofun⟩
  | cons first rest =>
    obtain ⟨hfirst, hrest⟩ := List.nodup_cons.mp h.nodup
    refine ⟨hrest, fun slot hm => ?_⟩
    have hne : first ≠ slot := fun he => hfirst (he ▸ hm)
    exact (List.getElem?_set_ne hne).trans (h.vacant slot (List.mem_cons_of_mem _ hm))

theorem Tidy.remove (h : s.Tidy) (slot : Nat) : (s.remove slot).Tidy := by
  unfold Slots.remove
  split
  · next a ha =>
    obtain ⟨hlt, hentry⟩ : ∃ hlt : slot < s.entries.length, s.entries[slot] = some a := by
      rw [find?, Option.join_eq_some_iff] at ha
      exact List.getElem?_eq_some_iff.mp ha
    have hstands : s.entries[slot]? = some (some a) := List.getElem?_eq_some_iff.mpr ⟨hlt, hentry⟩
    refine ⟨List.nodup_cons.mpr ⟨fun hm => ?_, h.nodup⟩, fun other hm => ?_⟩
    · exact absurd (hstands.symm.trans (h.vacant slot hm)) (by simp)
    · rw [List.getElem?_set]
      split
      · next he => simp
      · next hne => exact h.vacant other ((List.mem_cons.mp hm).resolve_left (Ne.symm hne))
  · exact h

/-- Changes what stands in the slots. -/
def map (f : α → β) (s : Slots α) : Slots β := ⟨s.entries.map (Option.map f), s.vacant⟩

theorem find?_map (f : α → β) (s : Slots α) (slot : Nat) :
    (s.map f).find? slot = (s.find? slot).map f := by
  simp only [find?, map, List.getElem?_map]
  cases s.entries[slot]? with
  | none => rfl
  | some entry => rfl

theorem insert_map (f : α → β) (s : Slots α) (a : α) :
    (s.map f).insert (f a) = ((s.insert a).1, (s.insert a).2.map f) := by
  obtain ⟨entries, vacant⟩ := s
  cases vacant with
  | nil => simp [insert, map]
  | cons slot rest => simp [insert, map, List.map_set]

theorem remove_map (f : α → β) (s : Slots α) (slot : Nat) :
    (s.remove slot).map f = (s.map f).remove slot := by
  unfold remove
  rw [find?_map]
  cases s.find? slot with
  | none => rfl
  | some entry => simp [map, List.map_set]

theorem toList_map (f : α → β) (s : Slots α) :
    (s.map f).toList = s.toList.map fun entry => (entry.1, f entry.2) := by
  have hfrom : ∀ (entries : List (Option α)) (first : Nat),
      numbered first (entries.map (Option.map f)) =
        (numbered first entries).map fun entry => (entry.1, f entry.2) := by
    intro entries
    induction entries with
    | nil => exact fun _ => rfl
    | cons entry entries ih =>
      intro first
      cases entry <;> simp [numbered, ih]
  exact hfrom s.entries 0

end Slots

/-- **Listening.** What happens to who is registered: a listener is registered at a node, a number is removed, or
a node has its turn with an event of a type. -/
inductive Listening
  | listen (n : NodeId) (l : Listener)
  | unlisten (n : NodeId) (slot : Nat)
  | turn (n : NodeId) (type : String)

/-- Nobody is registered by this. -/
def Listening.Lessens : Listening → Prop
  | .listen _ _ => False
  | .unlisten _ _ | .turn _ _ => True

/-- **Registration.** A listener, and how many registrations were made before it. -/
structure Registration where
  serial : Nat
  listener : Listener

/-- **Roster.** The node and the number of every registration that was ever made, in order, and the registrations
that stand at a node. -/
structure Roster where
  given : List (NodeId × Nat)
  slots : NodeId → Slots Registration

namespace Roster

/-- Nobody has been registered. -/
def none : Roster := ⟨[], fun _ => .empty⟩

/-- The registrations at a node for a type of event, with their numbers. -/
def found (r : Roster) (n : NodeId) (type : String) : List (Nat × Registration) :=
  (r.slots n).toList.filter fun entry => entry.2.listener.type == type

/-- What stands in slots without those of some registrations that are to be called once. -/
def without : List (Nat × Registration) → Slots Registration → Slots Registration
  | [], s => s
  | entry :: found, s =>
    without found (if entry.2.listener.once then s.remove entry.1 else s)

/-- **One step.** -/
def step (r : Roster) : Listening → Roster
  | .listen n l =>
    ⟨r.given ++ [(n, (r.slots n).next)],
      Function.update r.slots n ((r.slots n).insert ⟨r.given.length, l⟩).2⟩
  | .unlisten n slot => ⟨r.given, Function.update r.slots n ((r.slots n).remove slot)⟩
  | .turn n type => ⟨r.given, Function.update r.slots n (without (r.found n type) (r.slots n))⟩

/-- What a roster becomes. -/
def after (r : Roster) (hs : List Listening) : Roster := hs.foldl step r

/-- A registration stands under its number. -/
def Stands (r : Roster) (i : Nat) : Prop :=
  ∃ n slot l, (r.slots n).find? slot = some ⟨i, l⟩

/-- **Sound.** Where a registration stands, it is the last one that was given this number. -/
structure Sound (r : Roster) : Prop where
  tidy : ∀ n, (r.slots n).Tidy
  given : ∀ {n slot i l}, (r.slots n).find? slot = some ⟨i, l⟩ → r.given[i]? = some (n, slot)
  latest : ∀ {n slot i l}, (r.slots n).find? slot = some ⟨i, l⟩ →
    ∀ j, i < j → r.given[j]? ≠ some (n, slot)

variable {r : Roster}

theorem sound_none : none.Sound where
  tidy _ := Slots.tidy_empty
  given h := nomatch h
  latest h := nomatch h

theorem tidy_without {found : List (Nat × Registration)} {s : Slots Registration} (h : s.Tidy) :
    (without found s).Tidy := by
  induction found generalizing s with
  | nil => exact h
  | cons entry found ih =>
    refine ih ?_
    split
    · exact h.remove _
    · exact h

/-- Who stays is who was there, apart from those that are to be called once. -/
theorem find?_without {found : List (Nat × Registration)} {s : Slots Registration} {slot : Nat} :
    (without found s).find? slot =
      if found.any (fun entry => entry.1 == slot && entry.2.listener.once) then Option.none
      else s.find? slot := by
  induction found generalizing s with
  | nil => simp [without]
  | cons entry found ih =>
    rw [without, ih, List.any_cons]
    by_cases ho : entry.2.listener.once = true
    · rw [if_pos ho, Slots.find?_remove]
      grind
    · rw [if_neg ho]
      grind

/-- Who stands after a step that registers nobody stood before. -/
theorem find?_of_step {e : Listening} (he : e.Lessens) {m : NodeId} {slot : Nat}
    {reg : Registration} (hf : ((r.step e).slots m).find? slot = some reg) :
    (r.slots m).find? slot = some reg := by
  have hfewer : ∀ {n s}, (∀ {slot reg}, s.find? slot = some reg → (r.slots n).find? slot = some reg) →
      (Function.update r.slots n s m).find? slot = some reg → (r.slots m).find? slot = some reg := by
    intro n s hs hf
    rw [Function.update_apply] at hf
    split at hf
    · next hm => exact hm ▸ hs hf
    · exact hf
  cases e with
  | listen => exact he.elim
  | unlisten n other =>
    refine hfewer (fun hs => ?_) hf
    rw [Slots.find?_remove] at hs
    split at hs
    · exact absurd hs nofun
    · exact hs
  | turn n type =>
    refine hfewer (fun hs => ?_) hf
    rw [find?_without] at hs
    split at hs
    · exact absurd hs nofun
    · exact hs

/-- Who stands after a registration: the new one, or who stood, and not under its number. -/
theorem Sound.find?_listen (h : r.Sound) {n m : NodeId} {l : Listener} {slot : Nat}
    {reg : Registration} (hf : ((r.step (.listen n l)).slots m).find? slot = some reg) :
    ((m, slot) = (n, (r.slots n).next) ∧ reg = ⟨r.given.length, l⟩) ∨
      ((m, slot) ≠ (n, (r.slots n).next) ∧ (r.slots m).find? slot = some reg) := by
  change (Function.update r.slots n _ m).find? slot = some reg at hf
  rw [Function.update_apply] at hf
  split at hf
  · next hm =>
    subst hm
    rw [(h.tidy m).find?_insert] at hf
    split at hf
    · next he => exact .inl ⟨by rw [he], (Option.some.inj hf).symm⟩
    · next hne => exact .inr ⟨fun he => hne (congrArg Prod.snd he), hf⟩
  · next hm => exact .inr ⟨fun he => hm (congrArg Prod.fst he), hf⟩

theorem Sound.listen (h : r.Sound) (n : NodeId) (l : Listener) : (r.step (.listen n l)).Sound := by
  have hlt : ∀ {m slot i l'}, (r.slots m).find? slot = some ⟨i, l'⟩ → i < r.given.length :=
    fun hf => (List.getElem?_eq_some_iff.mp (h.given hf)).1
  refine ⟨fun m => ?_, fun hf => ?_, fun hf j hj => ?_⟩
  · show (Function.update r.slots n _ m).Tidy
    rw [Function.update_apply]
    split
    · exact (h.tidy n).insert _
    · exact h.tidy m
  · obtain ⟨he, hreg⟩ | ⟨-, hf⟩ := h.find?_listen hf
    · cases hreg
      rw [he]
      exact List.getElem?_concat_length
    · exact (List.getElem?_append_left (hlt hf)).trans (h.given hf)
  · obtain ⟨-, hreg⟩ | ⟨hne, hf⟩ := h.find?_listen hf
    · cases hreg
      rw [step, List.getElem?_eq_none (by simp; omega)]
      exact (Option.some_ne_none _).symm
    · rw [step, List.getElem?_append]
      split
      · exact h.latest hf j hj
      · rw [List.getElem?_singleton]
        split
        · exact fun he => hne (Option.some.inj he).symm
        · exact (Option.some_ne_none _).symm

theorem Sound.step (h : r.Sound) (e : Listening) : (r.step e).Sound := by
  have hfewer : e.Lessens → (∀ m, ((r.step e).slots m).Tidy) → (r.step e).given = r.given → (r.step e).Sound :=
    fun he ht hg => ⟨ht, fun hf => hg ▸ h.given (find?_of_step he hf),
      fun hf => hg ▸ h.latest (find?_of_step he hf)⟩
  have hupdate : ∀ {n s}, s.Tidy → ∀ m, (Function.update r.slots n s m).Tidy := by
    intro n s hs m
    rw [Function.update_apply]
    split
    · exact hs
    · exact h.tidy m
  cases e with
  | listen n l => exact h.listen n l
  | unlisten n slot =>
    exact hfewer trivial (hupdate ((h.tidy n).remove slot)) rfl
  | turn n type =>
    exact hfewer trivial (hupdate (tidy_without (h.tidy n))) rfl

theorem Sound.after (h : r.Sound) (hs : List Listening) : (r.after hs).Sound := by
  induction hs generalizing r with
  | nil => exact h
  | cons e hs ih => exact ih (h.step e)

/-- What has been given stays on the roster. -/
theorem given_after {i : Nat} {x : NodeId × Nat} (h : r.given[i]? = some x) (hs : List Listening) :
    (r.after hs).given[i]? = some x := by
  induction hs generalizing r with
  | nil => exact h
  | cons e hs ih =>
    refine ih ?_
    cases e with
    | listen => exact (List.getElem?_append_left (List.getElem?_eq_some_iff.mp h).1).trans h
    | unlisten | turn => exact h

/-- A registration that stands does so under the number that it was given. -/
theorem Sound.stands_iff (h : r.Sound) {n : NodeId} {slot i : Nat} (hg : r.given[i]? = some (n, slot)) :
    r.Stands i ↔ ∃ l, (r.slots n).find? slot = some ⟨i, l⟩ := by
  constructor
  · rintro ⟨m, other, l, hf⟩
    obtain ⟨rfl, rfl⟩ := Prod.mk.inj (Option.some.inj ((h.given hf).symm.trans hg))
    exact ⟨l, hf⟩
  · exact fun ⟨l, hf⟩ => ⟨n, slot, l, hf⟩

/-! ## Turns -/

theorem mem_found {n : NodeId} {type : String} {slot : Nat} {reg : Registration} :
    (slot, reg) ∈ r.found n type ↔ (r.slots n).find? slot = some reg ∧ reg.listener.type = type := by
  rw [found, List.mem_filter, Slots.mem_toList, beq_iff_eq]

/-- **Nobody is found twice.** -/
theorem Sound.nodup_found (h : r.Sound) (n : NodeId) (type : String) :
    ((r.found n type).map (·.2.serial)).Nodup := by
  refine List.pairwise_map.mpr (((Slots.pairwise_numbered (r.slots n).entries 0).filter _).imp_of_mem ?_)
  rintro ⟨slot, i, l⟩ ⟨other, j, l'⟩ hm hm' hlt (rfl : i = j)
  obtain ⟨-, he⟩ := Prod.mk.inj (Option.some.inj
    ((h.given (mem_found.mp hm).1).symm.trans (h.given (mem_found.mp hm').1)))
  exact absurd he (Nat.ne_of_lt hlt)

/-- Who does not stand any more never stands again. -/
theorem Sound.not_stands_after (h : r.Sound) {i : Nat} (hi : i < r.given.length) (hn : ¬ r.Stands i)
    (hs : List Listening) : ¬ (r.after hs).Stands i := by
  induction hs generalizing r with
  | nil => exact hn
  | cons e hs ih =>
    refine ih (h.step e) ?_ ?_
    · cases e with
      | listen => exact Nat.lt_of_lt_of_le hi (by simp [Roster.step])
      | unlisten | turn => exact hi
    · rintro ⟨m, slot, l, hf⟩
      cases e with
      | listen n l' =>
        obtain ⟨-, hreg⟩ | ⟨-, hf⟩ := h.find?_listen hf
        · exact absurd (congrArg Registration.serial hreg) (Nat.ne_of_lt hi)
        · exact hn ⟨m, slot, l, hf⟩
      | unlisten n other => exact hn ⟨m, slot, l, find?_of_step (e := .unlisten n other) trivial hf⟩
      | turn n type => exact hn ⟨m, slot, l, find?_of_step (e := .turn n type) trivial hf⟩

/-- **Who is to be called once goes** when the node has its turn, and never stands again. -/
theorem Sound.found_once (h : r.Sound) {n : NodeId} {type : String} {slot : Nat} {reg : Registration}
    (hm : (slot, reg) ∈ r.found n type) (ho : reg.listener.once = true) (hs : List Listening) :
    ¬ ((r.step (.turn n type)).after hs).Stands reg.serial := by
  have hgiven : r.given[reg.serial]? = some (n, slot) := h.given (mem_found.mp hm).1
  have hlt : reg.serial < r.given.length := (List.getElem?_eq_some_iff.mp hgiven).1
  refine (h.step (.turn n type)).not_stands_after hlt ?_ hs
  rw [(h.step (.turn n type)).stands_iff hgiven]
  rintro ⟨l, hf⟩
  change (Function.update r.slots n _ n).find? slot = _ at hf
  rw [Function.update_self, find?_without, if_pos] at hf
  · exact absurd hf nofun
  · exact List.any_eq_true.mpr ⟨(slot, reg), hm, by simp [ho]⟩

/-! ## Numbers that are removed -/

/-- **A number removes** the registration that stands under it, if one does. -/
theorem Sound.stands_unlisten (h : r.Sound) (n : NodeId) (slot i : Nat) :
    (r.step (.unlisten n slot)).Stands i ↔ r.Stands i ∧ r.given[i]? ≠ some (n, slot) := by
  have hfind : ∀ m other, ((r.step (.unlisten n slot)).slots m).find? other =
      if (m, other) = (n, slot) then Option.none else (r.slots m).find? other := by
    intro m other
    show (Function.update r.slots n _ m).find? other = _
    rw [Function.update_apply]
    by_cases hm : m = n
    · rw [if_pos hm, Slots.find?_remove, hm]
      simp
    · rw [if_neg hm, if_neg fun he => hm (congrArg Prod.fst he)]
  constructor
  · rintro ⟨m, other, l, hf⟩
    rw [hfind] at hf
    split at hf
    · exact absurd hf nofun
    · next hne =>
      exact ⟨⟨m, other, l, hf⟩, fun hg => hne (Option.some.inj ((h.given hf).symm.trans hg))⟩
  · rintro ⟨⟨m, other, l, hf⟩, hne⟩
    refine ⟨m, other, l, ?_⟩
    rwa [hfind, if_neg fun he : (m, other) = (n, slot) => hne (he ▸ h.given hf)]

/-- **A number removes its own registration** if it has not been given again. -/
theorem Sound.unlisten_own (h : r.Sound) {n : NodeId} {slot i : Nat} (hg : r.given[i]? = some (n, slot))
    (hlast : ∀ j, i < j → r.given[j]? ≠ some (n, slot)) :
    (∀ j, (r.step (.unlisten n slot)).Stands j ↔ r.Stands j ∧ j ≠ i) ∧
      (¬ r.Stands i → r.step (.unlisten n slot) = r) := by
  have hown : ∀ {j l}, (r.slots n).find? slot = some ⟨j, l⟩ → j = i := by
    intro j l hf
    refine Nat.le_antisymm (Nat.le_of_not_lt fun hlt => hlast j hlt (h.given hf)) ?_
    exact Nat.le_of_not_lt fun hlt => h.latest hf i hlt hg
  constructor
  · intro j
    rw [h.stands_unlisten]
    refine and_congr_right fun ⟨m, other, l, hf⟩ => not_congr ⟨fun hj => ?_, fun he => he ▸ hg⟩
    obtain ⟨rfl, rfl⟩ := Prod.mk.inj (Option.some.inj ((h.given hf).symm.trans hj))
    exact hown hf
  · intro hn
    have hnone : (r.slots n).find? slot = Option.none := by
      refine Option.eq_none_iff_forall_ne_some.mpr fun ⟨j, l⟩ hf => hn ?_
      exact hown hf ▸ ⟨n, slot, l, hf⟩
    rw [Roster.step, Slots.remove_of_find? hnone, Function.update_eq_self]

end Roster

namespace Roster

/-- The roster is of a document if it has the same listeners under the same numbers. -/
def Of (r : Roster) (d : Document) : Prop :=
  ∀ n, (d.get n).listeners = (r.slots n).map (·.listener)

variable {r : Roster} {d d' : Document}

theorem after_append (hs later : List Listening) : r.after (hs ++ later) = (r.after hs).after later :=
  List.foldl_append

theorem Of.of_same (h : r.Of d) (hd : ∀ n, (d'.get n).listeners = (d.get n).listeners) : r.Of d' :=
  fun n => (hd n).trans (h n)

/-- At one node the listeners are others. -/
theorem Of.update {n : NodeId} {s : Slots Registration} (h : r.Of d)
    (hn : (d'.get n).listeners = s.map (·.listener))
    (hd : ∀ m, m ≠ n → (d'.get m).listeners = (d.get m).listeners) (given : List (NodeId × Nat)) :
    Of ⟨given, Function.update r.slots n s⟩ d' := by
  intro m
  show _ = (Function.update r.slots n s m).map _
  rw [Function.update_apply]
  split
  · next hm => exact hm ▸ hn
  · next hm => exact (hd m hm).trans (h m)

theorem get_modify_listeners (d : Document) (n : NodeId) (f : Node → Node) :
    ((Store.modify d n f).get n).listeners = (f (d.get n)).listeners ∧
      ∀ m, m ≠ n → ((Store.modify d n f).get m).listeners = (d.get m).listeners := by
  refine ⟨by rw [Store.get_modify, if_pos rfl], fun m hm => ?_⟩
  rw [Store.get_modify, if_neg (Ne.symm hm)]

theorem Of.listen (h : r.Of d) (n : NodeId) (l : Listener) :
    (r.step (.listen n l)).Of (d.addListener n l).2 := by
  obtain ⟨hn, hd⟩ := get_modify_listeners d n
    fun node => { node with listeners := ((d.get n).listeners.insert l).2 }
  refine h.update (hn.trans ?_) hd _
  show ((d.get n).listeners.insert l).2 = _
  rw [h n]
  exact congrArg Prod.snd (Slots.insert_map (·.listener) (r.slots n) ⟨r.given.length, l⟩)

/-- The number that is given is the one entered in the roster. -/
theorem Of.addListener_fst (h : r.Of d) (n : NodeId) (l : Listener) :
    (d.addListener n l).1 = (r.slots n).next := by
  show ((d.get n).listeners.insert l).1 = _
  rw [h n, Slots.insert_fst]
  obtain ⟨entries, vacant⟩ := r.slots n
  simp [Slots.next, Slots.map]

theorem Of.unlisten (h : r.Of d) (n : NodeId) (slot : Nat) :
    (r.step (.unlisten n slot)).Of (d.removeListener n slot) := by
  obtain ⟨hn, hd⟩ := get_modify_listeners d n
    fun node => { node with listeners := node.listeners.remove slot }
  refine h.update (hn.trans ?_) hd _
  show (d.get n).listeners.remove slot = _
  rw [h n]
  exact (Slots.remove_map (·.listener) (r.slots n) slot).symm

/-- What is found in the document is what is found on the roster. -/
theorem Of.listenersFor (h : r.Of d) (n : NodeId) (type : String) :
    d.listenersFor n type = (r.found n type).map fun entry => (entry.1, entry.2.listener) := by
  rw [Document.listenersFor, h n, Slots.toList_map, found, List.filter_map]
  rfl

theorem Of.turn (h : r.Of d) (n : NodeId) (type : String) :
    (r.step (.turn n type)).Of (d.takeHandlers n type).2 := by
  have hkeep : ∀ (found : List (Nat × Registration)) {d : Document} {s : Slots Registration},
      (d.get n).listeners = s.map (·.listener) →
      let d' := (found.map fun entry => (entry.1, entry.2.listener)).foldl
        (fun d entry => if entry.2.once then d.removeListener n entry.1 else d) d
      (d'.get n).listeners = (without found s).map (·.listener) ∧
        ∀ m, m ≠ n → (d'.get m).listeners = (d.get m).listeners := by
    intro found
    induction found with
    | nil => exact fun hs => ⟨hs, fun _ _ => rfl⟩
    | cons entry found ih =>
      intro d s hs
      rw [List.map_cons, List.foldl_cons, without]
      by_cases ho : entry.2.listener.once = true
      · obtain ⟨hn, hd⟩ := get_modify_listeners d n
          fun node => { node with listeners := node.listeners.remove entry.1 }
        simp only [ho, if_true]
        obtain ⟨hn', hd'⟩ := ih (d := d.removeListener n entry.1) (s := s.remove entry.1) (by
          rw [Slots.remove_map, ← hs]
          exact hn)
        exact ⟨hn', fun m hm => (hd' m hm).trans (hd m hm)⟩
      · simp only [ho]
        exact ih hs
  obtain ⟨hn, hd⟩ := hkeep (r.found n type) (h n)
  rw [← h.listenersFor n type] at hn hd
  exact h.update hn hd _

end Roster

namespace Document

variable {d d' : Document} {hs later : List Listening}

/-- **Following.** The document changes as a roster of it does. -/
def Follows (d : Document) (hs : List Listening) (d' : Document) : Prop :=
  ∀ r : Roster, r.Of d → (r.after hs).Of d'

theorem Follows.trans {x : Document} (h : d.Follows hs x) (h' : x.Follows later d') :
    d.Follows (hs ++ later) d' :=
  fun r hr => Roster.after_append hs later ▸ h' _ (h r hr)

theorem follows_of_same (h : ∀ n, (d'.get n).listeners = (d.get n).listeners) : d.Follows [] d' :=
  fun _ hr => hr.of_same h

theorem Move.follows (h : Move d d') : ∃ hs, d.Follows hs d' := by
  cases h with
  | insert parent child reference =>
    exact ⟨[], follows_of_same (listeners_insertBefore d parent child reference)⟩
  | remove n => exact ⟨[], follows_of_same (listeners_detach d n)⟩
  | addListener n l => exact ⟨[.listen n l], fun _ hr => hr.listen n l⟩
  | removeListener n slot => exact ⟨[.unlisten n slot], fun _ hr => hr.unlisten n slot⟩
  | takeHandlers n type => exact ⟨[.turn n type], fun _ hr => hr.turn n type⟩

/-- **Every edit is followed.** -/
theorem Edit.follows (h : Edit d d') : ∃ hs, d.Follows hs d' := by
  cases h with
  | create c => exact ⟨[], follows_of_same (listeners_create d c)⟩
  | plant _ | clone => exact ⟨[], follows_of_same (listeners_plant d _)⟩
  | move h => exact h.follows
  | removeChild parent child => exact ⟨[], follows_of_same (listeners_removeChild d parent child)⟩
  | setText n text => exact ⟨[], follows_of_same (listeners_setText d n text)⟩
  | setData n | setAttribute n | setProperty n =>
    exact ⟨[], follows_of_same fun m => listeners_modifyContent d n m _⟩

theorem Edited.follows (h : d.Edited d') : ∃ hs, d.Follows hs d' := by
  induction h with
  | refl => exact ⟨[], follows_of_same fun _ => rfl⟩
  | tail _ he ih =>
    obtain ⟨hs, h⟩ := ih
    obtain ⟨later, h'⟩ := he.follows
    exact ⟨hs ++ later, h.trans h'⟩

/-- Letting go of nodes leaves them their listeners. -/
theorem listeners_orphan (d : Document) (live : ThingSet) (m : NodeId) :
    ((World.orphan d live).get m).listeners = (d.get m).listeners :=
  listeners_foldl (fun d n m => (listeners_setChildren _ n [] m).trans (listeners_setParents d _ none m))
    _ d m

end Document

end ReactiveViews
