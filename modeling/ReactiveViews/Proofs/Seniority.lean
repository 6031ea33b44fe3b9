import ReactiveViews.Proofs.Turns
/-!
# In the order of registration

In its turn a node calls its listeners in the order of their numbers (`Machine.Turn`), not in the order in which they
were registered. The two are the same as long as no number is given again: a new number is larger than all that
were given at the node before (`Roster.Ranked`). When a listener is gone, the next to be registered is given its
number, and stands in its place among the others. So whoever is called before somebody who was registered earlier has a
number that had been given before (`Roster.Sound.found_ranked`), and without such numbers everybody is called
in the order of registration.
-/

namespace ReactiveViews

namespace Slots

variable {α : Type} {s : Slots α}

/-- No slot is given up when one is vacated. -/
theorem length_remove (s : Slots α) (slot : Nat) : (s.remove slot).entries.length = s.entries.length := by
  unfold remove
  split
  · exact List.length_set
  · rfl

/-- A number that is given is one that has a slot, or the next one. -/
theorem Tidy.next_cases (h : s.Tidy) (a : α) :
    (s.next < s.entries.length ∧ (s.insert a).2.entries.length = s.entries.length) ∨
      (s.next = s.entries.length ∧ (s.insert a).2.entries.length = s.entries.length + 1) := by
  obtain ⟨entries, vacant⟩ := s
  cases vacant with
  | nil => exact .inr ⟨rfl, List.length_append⟩
  | cons slot rest =>
    have hslot := h.vacant slot List.mem_cons_self
    exact .inl ⟨(List.getElem?_eq_some_iff.mp hslot).1, List.length_set⟩

end Slots

namespace Roster

/-- **A number of its own.** What a registration was given has not been given before. -/
def OwnNumber (r : Roster) (i : Nat) : Prop := ∀ j, j < i → r.given[j]? ≠ r.given[i]?

/-- **Ranked.** Every slot of a node has been given, nothing else has, and a number that is given for the first time
is larger than those that were given at the node before. -/
structure Ranked (r : Roster) : Prop where
  below {n : NodeId} {slot i : Nat} : r.given[i]? = some (n, slot) → slot < (r.slots n).entries.length
  filled {n : NodeId} {slot : Nat} : slot < (r.slots n).entries.length →
    ∃ i : Nat, r.given[i]? = some (n, slot)
  rising {n : NodeId} {slot other i j : Nat} : r.given[i]? = some (n, slot) → r.given[j]? = some (n, other) →
    i < j → r.OwnNumber j → slot < other

variable {r r' : Roster} {n : NodeId} {type : String}

theorem ranked_none : none.Ranked where
  below h := nomatch h
  filled h := absurd h (Nat.not_lt_zero _)
  rising h := nomatch h

theorem length_without (found : List (Nat × Registration)) (s : Slots Registration) :
    (without found s).entries.length = s.entries.length := by
  induction found generalizing s with
  | nil => rfl
  | cons entry found ih =>
    rw [without, ih]
    split
    · exact Slots.length_remove s entry.1
    · rfl

/-- Ranks depend on what was given and on how many slots there are. -/
theorem Ranked.congr (h : r.Ranked) (hg : r'.given = r.given)
    (hs : ∀ n, (r'.slots n).entries.length = (r.slots n).entries.length) : r'.Ranked where
  below hi := by
    rw [hs]
    exact h.below (hg ▸ hi)
  filled hi := by
    rw [hs] at hi
    exact hg ▸ h.filled hi
  rising hi hj hlt ho := by
    rw [OwnNumber, hg] at ho
    exact h.rising (hg ▸ hi) (hg ▸ hj) hlt ho

/-- What has been given by a registration: the new number, or what was given before. -/
theorem given_listen {l : Listener} {i : Nat} {x : NodeId × Nat}
    (h : (r.step (.listen n l)).given[i]? = some x) :
    r.given[i]? = some x ∨ (i = r.given.length ∧ x = (n, (r.slots n).next)) := by
  replace h : (r.given ++ [(n, (r.slots n).next)])[i]? = some x := h
  rw [List.getElem?_append] at h
  split at h
  · exact .inl h
  · next hi =>
    obtain ⟨hi', rfl⟩ := List.getElem?_eq_some_iff.mp h
    exact .inr ⟨by simp at hi'; omega, by simp⟩

/-- **A registration leaves a roster ranked.** Where a number is given again, nothing is said of it; otherwise the number
is that of a new slot behind all others. -/
theorem Ranked.listen (h : r.Ranked) (ht : (r.slots n).Tidy) (l : Listener) :
    (r.step (.listen n l)).Ranked := by
  have hlength : ∀ m, ((r.step (.listen n l)).slots m).entries.length =
      if m = n then ((r.slots n).insert ⟨r.given.length, l⟩).2.entries.length
      else (r.slots m).entries.length := by
    intro m
    show (Function.update r.slots n _ m).entries.length = _
    rw [Function.update_apply]
    split <;> rfl
  have hkept {i : Nat} {x : NodeId × Nat} (hi : r.given[i]? = some x) :
      (r.step (.listen n l)).given[i]? = some x :=
    given_after hi [.listen n l]
  have hnew : (r.step (.listen n l)).given[r.given.length]? = some (n, (r.slots n).next) :=
    List.getElem?_concat_length
  have hnext := ht.next_cases ⟨r.given.length, l⟩
  refine ⟨fun {m slot i} hi => ?_, fun {m slot} hlt => ?_, fun {m slot other i j} hi hj hij ho => ?_⟩
  · rw [hlength]
    obtain hi | ⟨-, he⟩ := given_listen hi
    · have hbelow := h.below hi
      split
      · next hm =>
        subst hm
        omega
      · exact hbelow
    · obtain ⟨rfl, rfl⟩ := Prod.mk.inj he
      rw [if_pos rfl]
      omega
  · rw [hlength] at hlt
    by_cases hold : slot < (r.slots m).entries.length
    · obtain ⟨i, hi⟩ := h.filled hold
      exact ⟨i, hkept hi⟩
    · split at hlt
      · next hm =>
        subst hm
        have hslot : slot = (r.slots m).next := by omega
        exact ⟨_, hslot ▸ hnew⟩
      · exact absurd hlt hold
  · obtain hj | ⟨rfl, he⟩ := given_listen hj
    · obtain hi | ⟨rfl, -⟩ := given_listen hi
      · refine h.rising hi hj hij fun k hk => ?_
        have hk' := ho k hk
        rw [hkept hj] at hk'
        rw [hj]
        exact fun hgiven => hk' (hkept hgiven)
      · have := (List.getElem?_eq_some_iff.mp hj).1
        omega
    · obtain ⟨rfl, rfl⟩ := Prod.mk.inj he
      obtain hi | ⟨rfl, -⟩ := given_listen hi
      · obtain ⟨hlt, -⟩ | ⟨hend, -⟩ := hnext
        · -- The number has been given before.
          obtain ⟨k, hk⟩ := h.filled hlt
          have hk' := ho k (List.getElem?_eq_some_iff.mp hk).1
          exact absurd ((hkept hk).trans hnew.symm) hk'
        · exact hend ▸ h.below hi
      · exact absurd hij (Nat.lt_irrefl _)

/-- **Whatever happens to listeners leaves a roster ranked.** -/
theorem Ranked.step (h : r.Ranked) (hr : r.Sound) (e : Listening) : (r.step e).Ranked := by
  have hupdate : ∀ (m : NodeId) {s : Slots Registration},
      s.entries.length = (r.slots m).entries.length →
      Ranked ⟨r.given, Function.update r.slots m s⟩ := by
    intro m s hs
    refine h.congr rfl fun k => ?_
    show (Function.update r.slots m s k).entries.length = _
    rw [Function.update_apply]
    split
    · next hk => rw [hk, hs]
    · rfl
  cases e with
  | listen n l => exact h.listen (hr.tidy n) l
  | unlisten n slot => exact hupdate n (Slots.length_remove _ slot)
  | turn n type => exact hupdate n (length_without _ _)

theorem Ranked.after (h : r.Ranked) (hr : r.Sound) (hs : List Listening) : (r.after hs).Ranked := by
  induction hs generalizing r with
  | nil => exact h
  | cons e hs ih => exact ih (h.step hr e) (hr.step e)

/-- **Who is called earlier was registered earlier**, if the number that it was given is its own. -/
theorem Sound.found_ranked (h : r.Sound) (hr : r.Ranked) (n : NodeId) (type : String) :
    (r.found n type).Pairwise fun a b => r.OwnNumber a.2.serial → a.2.serial < b.2.serial := by
  refine ((Slots.pairwise_numbered (r.slots n).entries 0).filter _).imp_of_mem ?_
  rintro ⟨slot, i, l⟩ ⟨other, j, l'⟩ hm hm' (hlt : slot < other) (ho : r.OwnNumber i)
  have hi : r.given[i]? = some (n, slot) := h.given (mem_found.mp hm).1
  have hj : r.given[j]? = some (n, other) := h.given (mem_found.mp hm').1
  obtain hij | rfl | hji := Nat.lt_trichotomy i j
  · exact hij
  · obtain ⟨-, rfl⟩ := Prod.mk.inj (Option.some.inj (hi.symm.trans hj))
    exact absurd hlt (Nat.lt_irrefl _)
  · exact absurd (hr.rising hj hi hji ho) (Nat.lt_asymm hlt)

/-- The third to be registered is given the number of the first, and comes before the second. -/
example : ((none.after [.listen ⟨0⟩ ⟨"x", .assign ⟨0⟩, false⟩, .listen ⟨0⟩ ⟨"x", .assign ⟨1⟩, false⟩,
    .unlisten ⟨0⟩ 0, .listen ⟨0⟩ ⟨"x", .assign ⟨2⟩, false⟩]).found ⟨0⟩ "x").map (·.2.serial) = [2, 1] := by
  decide

end Roster

/-- **Listeners are called in the order in which they were registered** as far as their numbers are their own.
Wherever a session has got to, a node has its turn with an event. Whoever is found there was registered as what the roster
has it for, and they are called as they are found (`Machine.Turn`): whoever comes before another has been
registered before it, unless the number that it was given had been given at this node before. -/
theorem called_in_order_of_registration {c : Call} {n : NodeId} {e : EventId} {w w' : World} {depth : Nat}
    {res : Except Error Unit} (hv : Session.Visited (fun _ _ => true) c w)
    (h : Machine.run depth (.bubble n e) w = some (res, w')) :
    ∃ before rest r' w₁,
      let r := Roster.none.after before
      let found := r.found n (w.events.get e).type
      Machine.Turn (Machine.run rest) e n r w r' w₁ ∧
        (∀ entry ∈ found, r.given[entry.2.serial]? = some (n, entry.1)) ∧
        (found.Pairwise fun a b => r.OwnNumber a.2.serial → a.2.serial < b.2.serial) ∧
        ((∀ entry ∈ found, r.OwnNumber entry.2.serial) →
          (found.map (·.2.serial)).Pairwise (· < ·)) := by
  obtain ⟨before, hroster⟩ := Session.entry_of_visited hearing_kept World.rostered_empty hv
  have hsound := Roster.sound_none.after before
  have hranked := Roster.ranked_none.after Roster.sound_none before
  obtain ⟨-, ns, hs, hj⟩ := Machine.journey_of_bubble ⟨before, hroster⟩ hsound hroster h
  have hturn : ∃ rest r' w₁, Machine.Turn (Machine.run rest) e n (Roster.none.after before) w r' w₁ := by
    cases hj with
    | arrive ht | goOn ht => exact ⟨_, _, _, ht⟩
  obtain ⟨rest, r', w₁, ht⟩ := hturn
  have horder := hsound.found_ranked hranked n (w.events.get e).type
  refine ⟨before, rest, r', w₁, ht, fun entry hm => hsound.given (Roster.mem_found.mp hm).1, horder,
    fun hown => ?_⟩
  exact List.pairwise_map.mpr (horder.imp_of_mem fun hm _ hlt => hlt (hown _ hm))

/-- Two listeners, of which the one that is called first was registered last, under the number of a third one that is
gone. -/
theorem number_of_another_is_called_first : ∃ w r a b, Session.Visited (fun _ _ => true)
      (.perform (.node (.info "n"))) w ∧ Roster.Of r w.document ∧
    r.found ⟨0⟩ "x" = [a, b] ∧ a.2.listener.handler.isOf "c" = true ∧
    b.2.listener.handler.isOf "b" = true ∧ (r.OwnNumber a.2.serial → a.2.serial < b.2.serial) := by
  have hplay : (Session.play (fun _ _ => true) [.node (.create "n" (.element "div") ""),
      .event (.listen "a" "n" "x" false []), .event (.listen "b" "n" "x" false []),
      .event (.unlisten "a" "n"), .event (.listen "c" "n" "x" false []),
      .event (.create "e" (.fresh "x" none))] World.empty).any (fun w =>
        (Machine.runUnder (fun _ _ => true) Session.depth (.perform (.node (.info "n")))
          { w with log := [] }).isSome &&
        ((Machine.run Session.depth (.bubble ⟨0⟩ ⟨0⟩) { w with log := [] }).isSome &&
          ((w.events.get ⟨0⟩).type == "x" &&
            (w.document.listenersFor ⟨0⟩ "x").map (fun entry =>
              (entry.2.handler.isOf "b", entry.2.handler.isOf "c")) == [(false, true), (true, false)]))) =
      true := by
    decide +kernel
  obtain ⟨w, hw, hplay⟩ := (Option.any_eq_true _ _).mp hplay
  obtain ⟨hinfo, hplay⟩ := (Bool.and_eq_true _ _).mp hplay
  obtain ⟨hbubble, hplay⟩ := (Bool.and_eq_true _ _).mp hplay
  obtain ⟨htype, hnames⟩ := (Bool.and_eq_true _ _).mp hplay
  obtain ⟨⟨res, w'⟩, hbubble⟩ := Option.isSome_iff_exists.mp hbubble
  have hv := Session.visited_of_reached (Session.reached_of_play .start hw) hinfo
  obtain ⟨before, rest, r', w₁, ht, -, horder, -⟩ := called_in_order_of_registration hv hbubble
  rw [show (({ w with log := [] } : World).events.get ⟨0⟩).type = "x" from beq_iff_eq.mp htype] at horder
  have hfound := beq_iff_eq.mp hnames
  rw [ht.roster.listenersFor, List.map_map] at hfound
  obtain ⟨a, others, hlist, ha, hfound⟩ := List.map_eq_cons_iff.mp hfound
  obtain ⟨b, nobody, rfl, hb, hfound⟩ := List.map_eq_cons_iff.mp hfound
  obtain rfl := List.map_eq_nil_iff.mp hfound
  rw [hlist] at horder
  exact ⟨_, _, a, b, hv, ht.roster, hlist, (Prod.mk.inj ha).2, (Prod.mk.inj hb).1,
    (List.pairwise_cons.mp horder).1 b List.mem_cons_self⟩

end ReactiveViews
