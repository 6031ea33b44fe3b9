import Mathlib.Data.List.Intervals
import ReactiveViews.Proofs.Markup.Numbered
import ReactiveViews.Proofs.Markup.Placed
/-!
# Interpolations are spent in order

A directive is made of one interpolation, or of several that are put together as parts of one value
(`Makes`). The account of a supply says which of the interpolations up to a number went to which
directive, which of them to none, and that those from the number on are still there (`Supply.Spent`).

Each piece of source that is read is numbered, so reading it carries the account from the number at the
one end of the piece to that at the other. The only piece that is passed over is the value of an attribute
whose name holds a marker: what is in it goes to no directive.
-/

namespace ReactiveViews

namespace Markup

open Text Relation

/-! ## What is made of interpolations -/

/-- **Mixed parts.** The parts of a value are the bindings of interpolations, in order, with plain texts
among them. -/
inductive Mixes (dynamics : List Dynamic) : List Nat → List Expr → Bool → Prop
  | nil : Mixes dynamics [] [] false
  | text {is : List Nat} {parts : List Expr} {isVolatile : Bool} {cs : List Char} (hp : Plain cs)
    (h : Mixes dynamics is parts isVolatile) :
    Mixes dynamics is (.literal (.text (String.ofList (decode cs))) :: parts) isVolatile
  | binding {i : Nat} {is : List Nat} {parts : List Expr} {isVolatile : Bool} {b : Binding}
    (hi : dynamics[i]? = some (.binding b)) (h : Mixes dynamics is parts isVolatile) :
    Mixes dynamics (i :: is) (b.evaluator :: parts) (b.isVolatile || isVolatile)

/-- **Making.** A directive is made of interpolations: of one on its own, or of bindings as parts of a
value. -/
inductive Makes (dynamics : List Dynamic) : List Nat → Directive → Prop
  | single {i : Nat} {d : Dynamic} (hi : dynamics[i]? = some d) (aspect : Aspect) :
    Makes dynamics [i] (d.on aspect)
  | mixed {is : List Nat} {parts : List Expr} {isVolatile : Bool} (hn : is ≠ [])
    (h : Mixes dynamics is parts isVolatile) (aspect : Aspect) :
    Makes dynamics is (.bind { Binding.ofExpr (.cat parts) with isVolatile } aspect)

/-! ## Plain data -/

/-- **Read plain.** What a plain text is read as. -/
def ReadPlain (data : String) : Prop := ∃ cs, Plain cs ∧ data = String.ofList (decode cs)

/-- Attributes without any part of a marker. -/
def UnmarkedAttributes (attributes : Keyed String) : Prop :=
  ∀ entry ∈ attributes, Plain entry.1.toList ∧ ReadPlain entry.2

theorem UnmarkedAttributes.put {attributes : Keyed String} {name : String} {value : String}
    (h : UnmarkedAttributes attributes) (hn : Plain name.toList) (hv : ReadPlain value) :
    UnmarkedAttributes (attributes.put name value) := by
  induction attributes with
  | nil => exact List.forall_mem_singleton.mpr ⟨hn, hv⟩
  | cons entry rest ih =>
    obtain ⟨hentry, hrest⟩ := List.forall_mem_cons.mp h
    rw [Keyed.put]
    split
    · exact List.forall_mem_cons.mpr ⟨⟨hentry.1, hv⟩, hrest⟩
    · exact List.forall_mem_cons.mpr ⟨hentry, ih hrest⟩

/-! ## The account -/

namespace Supply

/-- **Unspent.** The interpolations from a number on are all in the supply. -/
def Unspent (dynamics : List Dynamic) (j : Nat) (s : Supply) : Prop :=
  ∀ i, j ≤ i → s.slots[i]? = dynamics[i]?.map some

/-- **Spent.** Of the interpolations up to a number each went to one directive, in order, or to none,
and the others are in the supply. -/
structure Spent (dynamics : List Dynamic) (j : Nat) (s : Supply) (groups : List (List Nat))
    (ignored : List Nat) : Prop where
  unspent : s.Unspent dynamics j
  made : List.Forall₂ (Makes dynamics) groups (s.targets.map Prod.snd)
  inOrder : groups.flatten.Pairwise (· < ·)
  each : (groups.flatten ++ ignored).Perm (List.range j)

variable {dynamics : List Dynamic} {j k : Nat} {s s' : Supply} {groups : List (List Nat)}
  {ignored : List Nat}

theorem Unspent.later (h : s.Unspent dynamics j) (hk : j ≤ k) : s.Unspent dynamics k :=
  fun i hi => h i (Nat.le_trans hk hi)

/-- The next interpolation is there to be taken. -/
theorem Unspent.take {pos : Nat} {d : Dynamic} (h : s.Unspent dynamics j)
    (ht : s.take pos j = .ok (d, s')) : dynamics[j]? = some d ∧ s'.Unspent dynamics (j + 1) := by
  unfold Supply.take at ht
  split at ht
  · next d' hslot =>
    obtain ⟨rfl, rfl⟩ := Prod.mk.inj (Except.ok.inj ht)
    rw [h j (Nat.le_refl _)] at hslot
    refine ⟨?_, fun i hi => ?_⟩
    · cases hd : dynamics[j]? with
      | none => simp [hd] at hslot
      | some e => simpa [hd] using hslot
    · rw [List.getElem?_set_ne (Nat.ne_of_lt hi)]
      exact h i (Nat.le_of_succ_le hi)
  · exact absurd ht (by simp)

/-- **One more directive** is made of the next interpolations. -/
theorem Spent.make {path : Path} {d : Directive} (h : s.Spent dynamics j groups ignored)
    (hk : j ≤ k) (hu : s'.Unspent dynamics k) (ht : s'.targets = s.targets ++ [(path, d)])
    (hd : Makes dynamics (List.Ico j k) d) :
    s'.Spent dynamics k (groups ++ [List.Ico j k]) ignored where
  unspent := hu
  made := by
    rw [ht, List.map_append]
    exact List.rel_append h.made (.cons hd .nil)
  inOrder := by
    rw [List.flatten_append, List.flatten_singleton, List.pairwise_append]
    refine ⟨h.inOrder, List.Ico.pairwise_lt _ _, fun a ha b hb => ?_⟩
    have hlt : a < j := List.mem_range.mp (h.each.subset (List.mem_append_left _ ha))
    exact Nat.lt_of_lt_of_le hlt (List.Ico.mem.mp hb).1
  each := by
    rw [List.flatten_append, List.flatten_singleton, ← List.Ico.zero_bot,
      ← List.Ico.append_consecutive (Nat.zero_le j) hk, List.Ico.zero_bot]
    have hswap : (groups.flatten ++ List.Ico j k ++ ignored).Perm
        (groups.flatten ++ ignored ++ List.Ico j k) := by
      rw [List.append_assoc, List.append_assoc]
      exact .append_left _ List.perm_append_comm
    exact hswap.trans (h.each.append_right _)

/-- The next interpolations go to no directive. -/
theorem Spent.ignore (h : s.Spent dynamics j groups ignored) (hk : j ≤ k) :
    s.Spent dynamics k groups (ignored ++ List.Ico j k) where
  unspent := h.unspent.later hk
  made := h.made
  inOrder := h.inOrder
  each := by
    rw [← List.append_assoc, ← List.Ico.zero_bot,
      ← List.Ico.append_consecutive (Nat.zero_le j) hk, List.Ico.zero_bot]
    exact h.each.append_right _

/-- The next interpolation is taken, and a directive is made of it alone. -/
theorem Spent.place {pos : Nat} {d : Dynamic} (h : s.Spent dynamics j groups ignored)
    (ht : s.take pos j = .ok (d, s')) (path : Path) (aspect : Aspect) :
    (s'.place path (d.on aspect)).Spent dynamics (j + 1) (groups ++ [[j]]) ignored := by
  obtain ⟨hd, hu⟩ := h.unspent.take ht
  have htargets : (s'.place path (d.on aspect)).targets = s.targets ++ [(path, d.on aspect)] := by
    rw [Supply.place, targets_take ht]
  replace hu : (s'.place path (d.on aspect)).Unspent dynamics (j + 1) := hu
  rw [← List.Ico.succ_singleton]
  refine h.make (Nat.le_succ j) hu htargets ?_
  rw [List.Ico.succ_singleton]
  exact .single hd aspect

/-! ## Pieces of source -/

/-- Markers in place of an attribute name. -/
theorem Spent.attachBare {path : Path} {start pos : Nat} {found : List Segment}
    (h : s.Spent dynamics j groups ignored) (hf : Segmented j k found)
    (ha : attachBare path start pos found s = .ok s') :
    ∃ groups', s'.Spent dynamics k groups' ignored := by
  induction hf generalizing s groups with
  | nil => exact ⟨groups, Except.ok.inj ha ▸ h⟩
  | text => exact absurd ha (by simp [Supply.attachBare])
  | marker _ ih =>
    rw [Supply.attachBare] at ha
    split at ha
    · exact absurd ha (by simp)
    · exact absurd ha (by simp)
    · next d s₁ ht => exact ih (h.place ht path .content) ha

/-- A value that mixes text and markers. -/
theorem Unspent.mix {start pos : Nat} {found : List Segment} {parts : List Expr} {isVolatile : Bool}
    (h : s.Unspent dynamics j) (hf : Segmented j k found)
    (hm : s.mix start pos found = .ok (parts, isVolatile, s')) :
    s'.Unspent dynamics k ∧ Mixes dynamics (List.Ico j k) parts isVolatile := by
  induction hf generalizing s parts isVolatile with
  | nil j =>
    obtain ⟨rfl, rfl, rfl⟩ : [] = parts ∧ false = isVolatile ∧ s = s' := by
      simpa [Supply.mix] using hm
    exact ⟨h, List.Ico.self_empty ▸ .nil⟩
  | @text j k cs found hp _ ih =>
    rw [Supply.mix] at hm
    cases hrest : s.mix start pos found with
    | error e => simp [hrest, Except.map] at hm
    | ok r =>
      obtain ⟨parts', isVolatile', s₁⟩ := r
      simp only [hrest, Except.map, Except.ok.injEq, Prod.mk.injEq] at hm
      obtain ⟨rfl, rfl, rfl⟩ := hm
      obtain ⟨hu, hmixes⟩ := ih h hrest
      exact ⟨hu, .text hp hmixes⟩
  | @marker j k found hf ih =>
    rw [Supply.mix] at hm
    split at hm
    · exact absurd hm (by simp)
    · exact absurd hm (by simp)
    · next b s₁ ht =>
      obtain ⟨hd, hu₁⟩ := h.take ht
      cases hrest : s₁.mix start pos found with
      | error e => simp [hrest, Except.map] at hm
      | ok r =>
        obtain ⟨parts', isVolatile', s₂⟩ := r
        simp only [hrest, Except.map, Except.ok.injEq, Prod.mk.injEq] at hm
        obtain ⟨rfl, rfl, rfl⟩ := hm
        obtain ⟨hu, hmixes⟩ := ih hu₁ hrest
        exact ⟨hu, List.Ico.eq_cons hf.le ▸ .binding hd hmixes⟩

/-- **An attribute spends** the interpolations in its name and its value, and ignores those in the value
of a directive. -/
theorem Spent.attach {m pos : Nat} {path : Path} {raw : RawAttribute}
    {attributes attributes' : Keyed String} (h : s.Spent dynamics j groups ignored)
    (hname : Numbered j m raw.name) (hvalue : Numbered m k raw.value)
    (hu : UnmarkedAttributes attributes)
    (ha : s.attach path pos raw attributes = .ok (attributes', s')) :
    ∃ groups' new, s'.Spent dynamics k groups' (ignored ++ new) ∧ UnmarkedAttributes attributes' ∧
      ∀ i ∈ new, markerOpen ∈ raw.name ∧ marker i <:+: raw.value := by
  -- Where the name holds no marker nothing is ignored.
  have hnone : ∀ {groups' : List (List Nat)}, s'.Spent dynamics k groups' ignored →
      UnmarkedAttributes attributes' → ∃ groups' new, s'.Spent dynamics k groups' (ignored ++ new) ∧
        UnmarkedAttributes attributes' ∧
          ∀ i ∈ new, markerOpen ∈ raw.name ∧ marker i <:+: raw.value :=
    fun hspent hu' => ⟨_, [], (List.append_nil ignored).symm ▸ hspent, hu', by simp⟩
  cases attaches_of_attach ha with
  | bare hm hs hb =>
    obtain ⟨groups', hspent⟩ := h.attachBare (hname.segments hs) hb
    refine ⟨groups', List.Ico m k, hspent.ignore hvalue.le, hu, fun i hi => ?_⟩
    obtain ⟨hmi, hik⟩ := List.Ico.mem.mp hi
    exact ⟨hm, hvalue.infix_marker hmi hik⟩
  | one hm hs ht =>
    obtain ⟨rfl, -⟩ := hname.plain hm
    obtain ⟨rfl, rfl⟩ := (hvalue.segments hs).of_singleton
    exact hnone (h.place ht path _) hu
  | @mixed _ _ _ s₁ hm hs hv hx =>
    obtain ⟨rfl, -⟩ := hname.plain hm
    have hf := hvalue.segments hs
    have hlt := hf.any_isMarker.mp hv
    obtain ⟨hunspent, hmixes⟩ := h.unspent.mix hf hx
    have hne : List.Ico j k ≠ [] := List.ne_nil_of_mem (List.Ico.mem.mpr ⟨Nat.le_refl j, hlt⟩)
    have htargets : ∀ d, (s₁.place path d).targets = s.targets ++ [(path, d)] := fun d =>
      congrArg (· ++ [(path, d)]) (targets_mix hx)
    exact hnone (h.make hlt.le hunspent (htargets _) (.mixed hne hmixes _)) hu
  | plain hm hs hv =>
    obtain ⟨rfl, hplain⟩ := hname.plain hm
    have hf := hvalue.segments hs
    obtain rfl : j = k := Nat.le_antisymm hf.le
      (Nat.not_lt.mp fun hlt => absurd ((hf.any_isMarker.mpr hlt).symm.trans hv) (by simp))
    refine hnone h (hu.put ?_ ⟨raw.value, hvalue.plain_of_eq, rfl⟩)
    rwa [String.toList_ofList]

end Supply

/-- Whether the end of a tag stands here, or that of the source. -/
def endsTag : List Char → Bool
  | [] => true
  | '>' :: _ => true
  | '/' :: '>' :: _ => true
  | _ => false

theorem endsTag_eq_false {d : Char} {rest : List Char}
    (hslash : ∀ more, d = '/' → rest = '>' :: more → False) (hgt : d = '>' → False) :
    endsTag (d :: rest) = false := by
  unfold endsTag
  split
  · next h => exact absurd h (by simp)
  · next h => exact (hgt (List.cons.inj h).1).elim
  · next more h => exact (hslash more (List.cons.inj h).1 (List.cons.inj h).2).elim
  · rfl

/-- **In a tag.** An attribute is read in a tag from some place on. -/
inductive Cursor.HasAttribute (raw : RawAttribute) : Cursor → Prop
  | here {c c' : Cursor} (he : endsTag c.skipBlanks.rest = false)
    (h : readAttribute c.skipBlanks = .ok (some raw, c')) : HasAttribute raw c
  | later {c c' : Cursor} {a : Option RawAttribute} (he : endsTag c.skipBlanks.rest = false)
    (h : readAttribute c.skipBlanks = .ok (a, c')) (hl : HasAttribute raw c') : HasAttribute raw c

namespace Supply

variable {dynamics : List Dynamic} {j k : Nat} {s s' : Supply} {groups : List (List Nat)}
  {ignored : List Nat}

/-- **A tag spends** the interpolations in it, and ignores those in the values of directives. -/
theorem Spent.readAttributes {n : Nat} {tag : String} {path : Path} {c c' : Cursor}
    {attributes attributes' : Keyed String} {closesItself : Bool}
    (h : s.Spent dynamics j groups ignored) (hc : Numbered j n c.rest)
    (hu : UnmarkedAttributes attributes)
    (hr : readAttributes tag path c attributes s = .ok ((attributes', s', closesItself), c')) :
    ∃ k groups' new, Numbered k n c'.rest ∧ s'.Spent dynamics k groups' (ignored ++ new) ∧
      UnmarkedAttributes attributes' ∧
        ∀ i ∈ new, ∃ raw, c.HasAttribute raw ∧ markerOpen ∈ raw.name ∧ marker i <:+: raw.value := by
  fun_induction Markup.readAttributes tag path c attributes s generalizing j groups ignored with
  | case1 => exact absurd hr (by simp)
  | case2 c attributes s rest hrest =>
    simp only [Except.ok.injEq, Prod.mk.injEq] at hr
    obtain ⟨⟨rfl, rfl, -⟩, rfl⟩ := hr
    have hslash := hc.skipBlanks.next hrest (by decide)
    have hnext : c.skipBlanks.next.rest = '>' :: rest := by rw [Cursor.next, hrest]; rfl
    exact ⟨j, groups, [], hslash.next hnext (by decide), (List.append_nil ignored).symm ▸ h, hu,
      by simp⟩
  | case3 c attributes s rest hrest =>
    simp only [Except.ok.injEq, Prod.mk.injEq] at hr
    obtain ⟨⟨rfl, rfl, -⟩, rfl⟩ := hr
    exact ⟨j, groups, [], hc.skipBlanks.next hrest (by decide), (List.append_nil ignored).symm ▸ h,
      hu, by simp⟩
  | case4 => exact absurd hr (by simp)
  | case5 c attributes s d rest hslash hgt hrest c₂ ha ih =>
    have he : endsTag c.skipBlanks.rest = false := hrest ▸ endsTag_eq_false hslash hgt
    obtain ⟨k, groups', new, hk, h', hu', hnew⟩ := ih h (hc.skipBlanks.readAttribute_none ha) hu hr
    refine ⟨k, groups', new, hk, h', hu', fun i hi => ?_⟩
    obtain ⟨raw, hraw, hbare⟩ := hnew i hi
    exact ⟨raw, .later he ha hraw, hbare⟩
  | case6 => exact absurd hr (by simp)
  | case7 c attributes s d rest hslash hgt hrest raw c₂ ha attributes₁ s₁ hs ih =>
    have he : endsTag c.skipBlanks.rest = false := hrest ▸ endsTag_eq_false hslash hgt
    obtain ⟨m, k, hname, hvalue, hbehind⟩ := hc.skipBlanks.readAttribute ha
    obtain ⟨groups₁, new₁, h₁, hu₁, hnew₁⟩ := h.attach hname hvalue hu hs
    obtain ⟨k', groups', new, hk', h', hu', hnew⟩ := ih h₁ hbehind hu₁ hr
    refine ⟨k', groups', new₁ ++ new, hk', List.append_assoc _ _ _ ▸ h', hu', fun i hi => ?_⟩
    rcases List.mem_append.mp hi with hi | hi
    · exact ⟨raw, .here he ha, hnew₁ i hi⟩
    · obtain ⟨raw', hraw, hbare⟩ := hnew i hi
      exact ⟨raw', .later he ha hraw, hbare⟩

end Supply

end Markup

end ReactiveViews
