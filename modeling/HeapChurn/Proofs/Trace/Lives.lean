import HeapChurn.Trace

/-!
# The lives of blocks

A trace read block by block. `Trace.about` keeps the events of one block; whatever a trace says of
its blocks one at a time it says of the whole, so a property of all traces of a run needs no
induction over the order of its threads. `Orderly` is the property that an allocator relies on: a
block is handed back after it was obtained, with its layout, and once. It follows when the life of
every block has one of four shapes (`orderly_of_lives`), and then the blocks that leak are those
that are held at the end (`mem_leaked_of_lives`).

`Woven` says that a trace is made of the traces of several threads, in any order that keeps the
order of each. A block that only one of the threads deals with has the same life in both
(`Woven.filter_eq`).
-/

namespace HeapChurn

/-- The block that an event is about. -/
def Event.block : Event → Block
  | .granted b => b
  | .refused b => b
  | .released b => b

@[simp] theorem Event.block_granted (b : Block) : (Event.granted b).block = b := rfl

@[simp] theorem Event.block_refused (b : Block) : (Event.refused b).block = b := rfl

@[simp] theorem Event.block_released (b : Block) : (Event.released b).block = b := rfl

namespace Trace

/-- The events about one block, in order. -/
def about (id : BlockId) (events : List Event) : List Event :=
  events.filter (·.block.id = id)

@[simp] theorem about_nil (id : BlockId) : about id [] = [] := rfl

@[simp] theorem about_append (id : BlockId) (s t : List Event) :
    about id (s ++ t) = about id s ++ about id t :=
  List.filter_append ..

theorem about_cons_self (e : Event) (t : List Event) :
    about e.block.id (e :: t) = e :: about e.block.id t := by
  simp [about]

theorem about_cons_of_ne {id : BlockId} {e : Event} (h : e.block.id ≠ id) (t : List Event) :
    about id (e :: t) = about id t := by
  simp [about, h]

theorem about_eq_nil {id : BlockId} {t : List Event} (h : ∀ e ∈ t, e.block.id ≠ id) :
    about id t = [] := by
  simpa [about] using h

theorem mem_about {id : BlockId} {t : List Event} {e : Event} :
    e ∈ about id t ↔ e ∈ t ∧ e.block.id = id := by
  simp [about]

/-- The events of a block of which nothing is outstanding: it was never asked for, or refused, or
obtained and handed back. -/
inductive Settled : List Event → Prop
  | unknown : Settled []
  | refused (b : Block) : Settled [.refused b]
  | returned (b : Block) : Settled [.granted b, .released b]

/-- What an allocator relies on. -/
structure Orderly (events : List Event) : Prop where
  /-- A block that is handed back was obtained before, with the same layout. -/
  granted_before : ∀ before b after, events = before ++ .released b :: after → .granted b ∈ before
  /-- No block is handed back twice. -/
  released_once : ∀ before b after, events = before ++ .released b :: after →
    ∀ c, c.id = b.id → .released c ∉ before ∧ .released c ∉ after
  /-- No block is obtained twice, so the layout with which it was obtained is one. -/
  granted_once : ∀ before b after, events = before ++ .granted b :: after →
    ∀ c, c.id = b.id → .granted c ∉ before ∧ .granted c ∉ after

section Lives

variable {events : List Event} (lives : ∀ id,
  Settled (about id events) ∨ ∃ b, about id events = [.granted b])

include lives

/-- In the life of a block that is handed back, all else is that it was obtained. -/
theorem about_split_of_released {before after : List Event} {b : Block}
    (h : events = before ++ .released b :: after) :
    about b.id before = [.granted b] ∧ about b.id after = [] := by
  have hb := lives b.id
  have hself := about_cons_self (.released b) after
  rw [Event.block_released] at hself
  rw [h, about_append, hself] at hb
  generalize about b.id before = s at hb
  generalize about b.id after = t at hb
  rcases hb with hb | ⟨c, hb⟩
  · generalize hw : s ++ .released b :: t = w at hb
    cases hb with
    | unknown => simp at hw
    | refused c => simp [List.append_eq_cons_iff] at hw
    | returned c =>
        rcases s with _ | ⟨e, s⟩
        · simp at hw
        · simp only [List.cons_append, List.cons.injEq] at hw
          obtain ⟨rfl, hw⟩ := hw
          rcases s with _ | ⟨e, s⟩
          · simp only [List.nil_append, List.cons.injEq, Event.released.injEq] at hw
            obtain ⟨rfl, rfl⟩ := hw
            exact ⟨rfl, rfl⟩
          · simp at hw
  · simp [List.append_eq_cons_iff] at hb

/-- In the life of a block that is obtained, it is obtained once. -/
theorem about_split_of_granted {before after : List Event} {b : Block}
    (h : events = before ++ .granted b :: after) :
    about b.id before = [] ∧ ∀ c, .granted c ∉ about b.id after := by
  have hb := lives b.id
  have hself := about_cons_self (.granted b) after
  rw [Event.block_granted] at hself
  rw [h, about_append, hself] at hb
  generalize about b.id before = s at hb
  generalize about b.id after = t at hb
  rcases hb with hb | ⟨c, hb⟩
  · generalize hw : s ++ .granted b :: t = w at hb
    cases hb with
    | unknown => simp at hw
    | refused c => simp [List.append_eq_cons_iff] at hw
    | returned c =>
        rcases s with _ | ⟨e, s⟩
        · simp only [List.nil_append, List.cons.injEq] at hw
          obtain ⟨-, rfl⟩ := hw
          simp
        · simp [List.append_eq_cons_iff] at hw
  · rcases s with _ | ⟨e, s⟩
    · simp only [List.nil_append, List.cons.injEq] at hb
      obtain ⟨-, rfl⟩ := hb
      simp
    · simp at hb

theorem orderly_of_lives : Orderly events where
  granted_before before b after h := by
    have hbefore := (about_split_of_released lives h).1
    have : .granted b ∈ about b.id before := by rw [hbefore]; exact List.mem_singleton.mpr rfl
    exact (mem_about.mp this).1
  released_once before b after h c hc := by
    obtain ⟨hbefore, hafter⟩ := about_split_of_released lives h
    constructor
    · intro hmem
      have : .released c ∈ about b.id before := mem_about.mpr ⟨hmem, hc⟩
      rw [hbefore] at this
      simp at this
    · intro hmem
      have : .released c ∈ about b.id after := mem_about.mpr ⟨hmem, hc⟩
      rw [hafter] at this
      simp at this
  granted_once before b after h c hc := by
    obtain ⟨hbefore, hafter⟩ := about_split_of_granted lives h
    constructor
    · intro hmem
      have : .granted c ∈ about b.id before := mem_about.mpr ⟨hmem, hc⟩
      rw [hbefore] at this
      simp at this
    · exact fun hmem => hafter c (mem_about.mpr ⟨hmem, hc⟩)

end Lives

/-! ## What leaks -/

theorem contains_foldl_released {id : BlockId} : ∀ (events : List Event)
    (ids : Std.HashSet BlockId),
    (events.foldl (fun ids e => match e with
      | .released b => ids.insert b.id
      | _ => ids) ids).contains id = true
      ↔ ids.contains id = true ∨ ∃ b, .released b ∈ events ∧ b.id = id
  | [], ids => by simp
  | e :: events, ids => by
      rw [List.foldl_cons, contains_foldl_released events]
      cases e with
      | granted b => simp
      | refused b => simp
      | released b =>
          simp only [Std.HashSet.contains_insert, Bool.or_eq_true, beq_iff_eq, List.mem_cons,
            Event.released.injEq]
          constructor
          · rintro ((rfl | h) | ⟨c, hc, rfl⟩)
            · exact Or.inr ⟨b, Or.inl rfl, rfl⟩
            · exact Or.inl h
            · exact Or.inr ⟨c, Or.inr hc, rfl⟩
          · rintro (h | ⟨c, rfl | hc, rfl⟩)
            · exact Or.inl (Or.inr h)
            · exact Or.inl (Or.inl rfl)
            · exact Or.inr ⟨c, hc, rfl⟩

theorem contains_released {id : BlockId} (events : List Event) :
    (released events).contains id = true ↔ ∃ b, .released b ∈ events ∧ b.id = id :=
  (contains_foldl_released events ∅).trans (by simp)

theorem mem_leaked {id : BlockId} {events : List Event} :
    id ∈ leaked events ↔ (∃ b, .granted b ∈ events ∧ b.id = id)
      ∧ ∀ b, .released b ∈ events → b.id ≠ id := by
  have hfree : (∀ b, .released b ∈ events → b.id ≠ id)
      ↔ ¬(released events).contains id = true := by
    rw [contains_released]
    simp
  rw [hfree]
  simp only [leaked, List.mem_filterMap]
  constructor
  · rintro ⟨e, he, hid⟩
    cases e with
    | granted b =>
        by_cases hb : (released events).contains b.id = true
        · simp [hb] at hid
        · simp only [hb, Bool.false_eq_true, if_false, Option.some.injEq] at hid
          subst hid
          exact ⟨⟨b, he, rfl⟩, hb⟩
    | refused b => simp at hid
    | released b => simp at hid
  · rintro ⟨⟨b, hb, rfl⟩, hid⟩
    exact ⟨.granted b, hb, by simp [hid]⟩

/-- Where every block has a life of one of the four shapes, what leaks is what is held. -/
theorem mem_leaked_of_lives {id : BlockId} {events : List Event}
    (life : Settled (about id events) ∨ ∃ b, about id events = [.granted b]) :
    id ∈ leaked events ↔ ∃ b, about id events = [.granted b] := by
  have hgranted : (∃ b, .granted b ∈ events ∧ b.id = id)
      ↔ ∃ b, .granted b ∈ about id events := by
    simp [mem_about]
  have hreleased : (∀ b, .released b ∈ events → b.id ≠ id)
      ↔ ∀ b, .released b ∉ about id events := by
    simp [mem_about]
  rw [mem_leaked, hgranted, hreleased]
  generalize about id events = s at life
  rcases life with h | ⟨b, rfl⟩
  · cases h <;> simp
  · simp

/-! ## Traces of several threads -/

/-- `Woven ls t`: the list `t` takes all elements of the lists in `ls`, each list in its order. -/
inductive Woven {α : Type} : List (List α) → List α → Prop
  | nil {ls : List (List α)} (h : ∀ l ∈ ls, l = []) : Woven ls []
  | cons {ls : List (List α)} {x : α} {l t : List α} (i : Nat) (hi : ls[i]? = some (x :: l))
      (ht : Woven (ls.set i l) t) : Woven ls (x :: t)

theorem Woven.cons_nil {α : Type} {ls : List (List α)} {t : List α} (h : Woven ls t) :
    Woven ([] :: ls) t := by
  induction h with
  | nil hnil => exact .nil (List.forall_mem_cons.mpr ⟨rfl, hnil⟩)
  | cons i hi _ ih => exact .cons (i + 1) hi ih

theorem Woven.cons_append {α : Type} {ls : List (List α)} {t : List α} (h : Woven ls t) :
    ∀ l : List α, Woven (l :: ls) (l ++ t)
  | [] => h.cons_nil
  | _ :: l => .cons 0 rfl (h.cons_append l)

/-- One list after the other is one order. -/
theorem woven_flatten {α : Type} : ∀ ls : List (List α), Woven ls ls.flatten
  | [] => .nil nofun
  | l :: ls => (woven_flatten ls).cons_append l

theorem woven_of_getElem? {α : Type} {i : Nat} : ∀ {l : List α} {ls : List (List α)},
    ls[i]? = some l → (∀ j k, j ≠ i → ls[j]? = some k → k = []) → Woven ls l
  | [], ls, hi, hother => .nil fun k hk => by
      obtain ⟨j, hj⟩ := List.mem_iff_getElem?.mp hk
      by_cases hji : j = i
      · rw [hji, hi] at hj
        exact (Option.some.inj hj).symm
      · exact hother j k hji hj
  | x :: l, ls, hi, hother => by
      have hlen : i < ls.length := (List.getElem?_eq_some_iff.mp hi).1
      refine .cons i hi (woven_of_getElem? (by rw [List.getElem?_set_self hlen]) ?_)
      intro j k hji hk
      rw [List.getElem?_set_ne (Ne.symm hji)] at hk
      exact hother j k hji hk

/-- What one of the threads goes on to do comes last. -/
theorem Woven.append {α : Type} {ls : List (List α)} {t : List α} (h : Woven ls t) (x : List α) :
    ∀ {i : Nat} {l : List α}, ls[i]? = some l → Woven (ls.set i (l ++ x)) (t ++ x) := by
  induction h with
  | @nil ls hnil =>
      intro i l hi
      have hlen : i < ls.length := (List.getElem?_eq_some_iff.mp hi).1
      obtain rfl : l = [] := hnil l (List.mem_of_getElem? hi)
      refine woven_of_getElem? (List.getElem?_set_self hlen) fun j k hji hk => ?_
      rw [List.getElem?_set_ne (Ne.symm hji)] at hk
      exact hnil k (List.mem_of_getElem? hk)
  | @cons ls y m t k hk _ ih =>
      intro i l hi
      have hlen : i < ls.length := (List.getElem?_eq_some_iff.mp hi).1
      by_cases hik : i = k
      · subst hik
        obtain rfl : l = y :: m := Option.some.inj (hi.symm.trans hk)
        refine .cons i (List.getElem?_set_self hlen) ?_
        have hrest := ih (i := i) (List.getElem?_set_self hlen)
        rw [List.set_set] at hrest ⊢
        exact hrest
      · refine .cons k ((List.getElem?_set_ne hik).trans hk) ?_
        rw [List.set_comm _ _ hik]
        exact ih ((List.getElem?_set_ne (Ne.symm hik)).trans hi)

/-- Elements that only one list has come in the order of that list. -/
theorem Woven.filter_eq {α : Type} {p : α → Bool} {ls : List (List α)} {t : List α}
    (h : Woven ls t) : ∀ {i : Nat} {l : List α}, ls[i]? = some l →
      (∀ j k, j ≠ i → ls[j]? = some k → k.filter p = []) → t.filter p = l.filter p := by
  induction h with
  | nil hnil =>
      intro i l hl _
      rw [hnil l (List.mem_of_getElem? hl)]
  | @cons ls x l t i hi _ ih =>
      intro k m hm hother
      have hlen : i < ls.length := (List.getElem?_eq_some_iff.mp hi).1
      by_cases hik : k = i
      · subst hik
        obtain rfl : m = x :: l := Option.some.inj (hm.symm.trans hi)
        have hrest : t.filter p = l.filter p := by
          refine ih (i := k) (by rw [List.getElem?_set_self hlen]) fun j q hj hq => ?_
          rw [List.getElem?_set_ne (Ne.symm hj)] at hq
          exact hother j q hj hq
        rw [List.filter_cons, List.filter_cons, hrest]
      · have hxl := hother i _ (Ne.symm hik) hi
        rw [List.filter_cons] at hxl
        have hx : p x = false := Bool.eq_false_iff.mpr fun hx => by simp [hx] at hxl
        rw [List.filter_cons, hx]
        refine ih (i := k) (by rw [List.getElem?_set_ne (Ne.symm hik)]; exact hm)
          fun j q hj hq => ?_
        by_cases hij : j = i
        · subst hij
          rw [List.getElem?_set_self hlen, Option.some.injEq] at hq
          subst hq
          simpa [hx] using hxl
        · rw [List.getElem?_set_ne (Ne.symm hij)] at hq
          exact hother j q hj hq

theorem Woven.filterMap_eq {α β : Type} {f : α → Option β} {ls : List (List α)} {t : List α}
    (h : Woven ls t) {i : Nat} {l : List α} (hi : ls[i]? = some l)
    (hother : ∀ j k, j ≠ i → ls[j]? = some k → k.filterMap f = []) :
    t.filterMap f = l.filterMap f := by
  have hfilter : ∀ k : List α, (k.filter fun x => (f x).isSome).filterMap f = k.filterMap f := by
    intro k
    rw [List.filterMap_filter]
    congr 1
    funext x
    cases f x <;> rfl
  rw [← hfilter t, ← hfilter l, h.filter_eq hi]
  intro j k hji hk
  have hnone := hother j k hji hk
  rw [List.filterMap_eq_nil_iff] at hnone
  exact List.filter_eq_nil_iff.mpr fun x hx => by simp [hnone x hx]

/-- Elements that no list has do not come. -/
theorem Woven.filter_eq_nil {α : Type} {p : α → Bool} {ls : List (List α)} {t : List α}
    (h : Woven ls t) (hp : ∀ l ∈ ls, l.filter p = []) : t.filter p = [] := by
  induction h with
  | nil _ => rfl
  | @cons ls x l t i hi _ ih =>
      have hxl := hp _ (List.mem_of_getElem? hi)
      have hx : p x = false :=
        Bool.eq_false_iff.mpr fun hx => by simp [hx] at hxl
      rw [List.filter_cons, hx]
      refine ih fun k hk => ?_
      rcases List.mem_or_eq_of_mem_set hk with hk | rfl
      · exact hp k hk
      · simpa [List.filter_cons, hx] using hxl

end Trace

end HeapChurn
