/-!
Finite sets kept as strictly ascending lists. Two sets with the same members are the same list, so
equality of sets is equality of values, and listing a set gives its canonical order.

Main statements: `ext_mem` (the members decide the set), `mem_insert`, `mem_ofList`, `mem_filter`,
`mem_union`.
-/

namespace Muster

open Std

/-- A finite set of `α`, listed in strictly ascending order. -/
structure OrderedSet (α : Type) [Ord α] where
  toList : List α
  ascending : toList.Pairwise (fun a b => compare a b = .lt)

namespace OrderedSet

variable {α β : Type} [Ord α] [Ord β]

instance : Membership α (OrderedSet α) := ⟨fun s a => a ∈ s.toList⟩

theorem mem_def {a : α} {s : OrderedSet α} : a ∈ s ↔ a ∈ s.toList := Iff.rfl

instance [DecidableEq α] (a : α) (s : OrderedSet α) : Decidable (a ∈ s) :=
  inferInstanceAs (Decidable (a ∈ s.toList))

instance [DecidableEq α] : DecidableEq (OrderedSet α) := fun s t =>
  if h : s.toList = t.toList then
    .isTrue (by cases s; cases t; cases h; rfl)
  else
    .isFalse (fun e => h (e ▸ rfl))

/-- The set without members. -/
def empty : OrderedSet α := ⟨[], .nil⟩

instance : Inhabited (OrderedSet α) := ⟨empty⟩
instance : EmptyCollection (OrderedSet α) := ⟨empty⟩

/-- Whether the set has no members. -/
def isEmpty (s : OrderedSet α) : Bool := s.toList.isEmpty

/-- The number of members. -/
def size (s : OrderedSet α) : Nat := s.toList.length

/-- Keeps the members that satisfy `p`. -/
def filter (p : α → Bool) (s : OrderedSet α) : OrderedSet α :=
  ⟨s.toList.filter p, s.ascending.sublist List.filter_sublist⟩

/-- Puts `a` at its place in an ascending list, unless it is there already. -/
def place (a : α) : List α → List α
  | [] => [a]
  | b :: rest =>
    match compare a b with
    | .lt => a :: b :: rest
    | .eq => b :: rest
    | .gt => b :: place a rest

theorem mem_place_imp {a x : α} {xs : List α} : x ∈ place a xs → x = a ∨ x ∈ xs := by
  induction xs with
  | nil => simp [place]
  | cons b rest ih =>
    simp only [place]
    split <;> simp only [List.mem_cons]
    · exact id
    · exact Or.inr
    · rintro (h | h)
      · exact .inr (.inl h)
      · exact (ih h).imp_right .inr

variable [TransOrd α]

theorem pairwise_place (a : α) {xs : List α} (h : xs.Pairwise (fun a b => compare a b = .lt)) :
    (place a xs).Pairwise (fun a b => compare a b = .lt) := by
  induction xs with
  | nil => simp [place]
  | cons b rest ih =>
    obtain ⟨hb, hrest⟩ := List.pairwise_cons.1 h
    simp only [place]
    split
    · rename_i hab
      exact List.pairwise_cons.2 ⟨fun c hc => (List.mem_cons.1 hc).elim (fun e => e ▸ hab)
        (fun hc => TransCmp.lt_trans hab (hb c hc)), h⟩
    · exact h
    · rename_i hab
      refine List.pairwise_cons.2 ⟨fun c hc => ?_, ih hrest⟩
      rcases mem_place_imp hc with rfl | hc
      · exact OrientedCmp.gt_iff_lt.1 hab
      · exact hb c hc

/-- Adds a member. -/
def insert (a : α) (s : OrderedSet α) : OrderedSet α :=
  ⟨place a s.toList, pairwise_place a s.ascending⟩

/-- The set of the values in a list. -/
def ofList (xs : List α) : OrderedSet α := xs.foldl (fun s a => s.insert a) empty

/-- The members of either set. -/
def union (s t : OrderedSet α) : OrderedSet α := t.toList.foldl (fun u a => u.insert a) s

instance : Union (OrderedSet α) := ⟨union⟩

/-- The set of the images that `f` gives. -/
def filterMap [TransOrd β] (f : α → Option β) (s : OrderedSet α) : OrderedSet β :=
  ofList (s.toList.filterMap f)

/-- The set of the images under `f`. -/
def image [TransOrd β] (f : α → β) (s : OrderedSet α) : OrderedSet β := ofList (s.toList.map f)

/-- The set of one value. -/
def singleton (a : α) : OrderedSet α := empty.insert a

section Lawful

variable [LawfulEqOrd α]

omit [TransOrd α] in
theorem mem_place {a x : α} {xs : List α} : x ∈ place a xs ↔ x = a ∨ x ∈ xs := by
  refine ⟨mem_place_imp, ?_⟩
  induction xs with
  | nil => simp [place]
  | cons b rest ih =>
    simp only [place]
    split <;> simp only [List.mem_cons]
    · exact id
    · rename_i h
      have : a = b := LawfulEqCmp.eq_of_compare h
      rintro (h | h | h)
      · exact .inl (h.trans this)
      · exact .inl h
      · exact .inr h
    · rintro (h | h | h)
      · exact .inr (ih (.inl h))
      · exact .inl h
      · exact .inr (ih (.inr h))

@[simp] theorem mem_insert {a x : α} {s : OrderedSet α} : x ∈ s.insert a ↔ x = a ∨ x ∈ s :=
  mem_place

omit [TransOrd α] [LawfulEqOrd α] in
@[simp] theorem not_mem_empty (x : α) : ¬ x ∈ (empty : OrderedSet α) := List.not_mem_nil

omit [TransOrd α] [LawfulEqOrd α] in
theorem isEmpty_iff {s : OrderedSet α} : s.isEmpty = true ↔ ∀ x, x ∉ s := by
  rw [isEmpty, List.isEmpty_iff, List.eq_nil_iff_forall_not_mem]
  rfl

theorem mem_foldl_insert {x : α} {xs : List α} {s : OrderedSet α} :
    x ∈ xs.foldl (fun u a => u.insert a) s ↔ x ∈ s ∨ x ∈ xs := by
  induction xs generalizing s with
  | nil => simp
  | cons a rest ih =>
    rw [List.foldl_cons, ih, mem_insert, List.mem_cons]
    constructor
    · rintro ((h | h) | h)
      · exact .inr (.inl h)
      · exact .inl h
      · exact .inr (.inr h)
    · rintro (h | h | h)
      · exact .inl (.inr h)
      · exact .inl (.inl h)
      · exact .inr h

@[simp] theorem mem_ofList {x : α} {xs : List α} : x ∈ ofList xs ↔ x ∈ xs := by
  simp [ofList, mem_foldl_insert]

@[simp] theorem mem_union {x : α} {s t : OrderedSet α} : x ∈ s ∪ t ↔ x ∈ s ∨ x ∈ t :=
  mem_foldl_insert

omit [TransOrd α] [LawfulEqOrd α] in
@[simp] theorem mem_filter {x : α} {p : α → Bool} {s : OrderedSet α} :
    x ∈ s.filter p ↔ x ∈ s ∧ p x := List.mem_filter

omit [Ord α] [TransOrd α] [LawfulEqOrd α] in
/-- Lists that ascend in a strict order and have the same members are equal. -/
theorem eq_of_mem_iff {r : α → α → Prop} (irrefl : ∀ a, ¬ r a a)
    (trans : ∀ {a b c}, r a b → r b c → r a c) {xs ys : List α}
    (hx : xs.Pairwise r) (hy : ys.Pairwise r) (h : ∀ a, a ∈ xs ↔ a ∈ ys) : xs = ys := by
  induction xs generalizing ys with
  | nil =>
    cases ys with
    | nil => rfl
    | cons b _ => exact absurd ((h b).2 List.mem_cons_self) List.not_mem_nil
  | cons a as ih =>
    cases ys with
    | nil => exact absurd ((h a).1 List.mem_cons_self) List.not_mem_nil
    | cons b bs =>
      obtain ⟨ha, has⟩ := List.pairwise_cons.1 hx
      obtain ⟨hb, hbs⟩ := List.pairwise_cons.1 hy
      have hab : a = b := by
        rcases List.mem_cons.1 ((h a).1 List.mem_cons_self) with e | hmem
        · exact e
        rcases List.mem_cons.1 ((h b).2 List.mem_cons_self) with e | hmem'
        · exact e.symm
        · exact absurd (trans (hb a hmem) (ha b hmem')) (irrefl b)
      subst hab
      refine congrArg _ (ih has hbs fun c => ⟨fun hc => ?_, fun hc => ?_⟩)
      · rcases List.mem_cons.1 ((h c).1 (List.mem_cons_of_mem _ hc)) with rfl | hc'
        · exact absurd (ha c hc) (irrefl c)
        · exact hc'
      · rcases List.mem_cons.1 ((h c).2 (List.mem_cons_of_mem _ hc)) with rfl | hc'
        · exact absurd (hb c hc) (irrefl c)
        · exact hc'

omit [TransOrd α] [LawfulEqOrd α] in
theorem compare_self_ne_lt [ReflOrd α] (a : α) : ¬ compare a a = .lt := by
  simp [ReflCmp.compare_self]

omit [LawfulEqOrd α] in
/-- The members decide the set. -/
theorem ext_mem {s t : OrderedSet α} (h : ∀ a, a ∈ s ↔ a ∈ t) : s = t := by
  have := eq_of_mem_iff compare_self_ne_lt TransCmp.lt_trans s.ascending t.ascending h
  cases s; cases t; cases this; rfl

omit [LawfulEqOrd α] in
theorem eq_empty_iff {s : OrderedSet α} : s = empty ↔ ∀ x, x ∉ s := by
  constructor
  · rintro rfl x
    exact not_mem_empty x
  · exact fun h => ext_mem fun x => iff_of_false (h x) (not_mem_empty x)

end Lawful

end OrderedSet
end Muster
