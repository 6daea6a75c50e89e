import Muster.Ordered.Set

/-!
Finite maps kept as lists of entries with strictly ascending keys. Two maps that give the same
values are the same list, so equality of maps is equality of values, and listing a map gives its
entries in key order.

Main statements: `ext_get?` (the values decide the map), `get?_insert`, `get?_erase`,
`get?_filter`, `get?_tabulate`, `get?_mapValues`.
-/

namespace Muster

open Std

/-- A finite map from `α` to `β`, listed in strictly ascending order of its keys. -/
structure OrderedMap (α β : Type) [Ord α] where
  entries : List (α × β)
  ascending : entries.Pairwise (fun e f => compare e.1 f.1 = .lt)

namespace OrderedMap

variable {α β γ : Type} [Ord α]

instance [DecidableEq α] [DecidableEq β] : DecidableEq (OrderedMap α β) := fun s t =>
  if h : s.entries = t.entries then
    .isTrue (by cases s; cases t; cases h; rfl)
  else
    .isFalse (fun e => h (e ▸ rfl))

/-- The map without entries. -/
def empty : OrderedMap α β := ⟨[], .nil⟩

instance : Inhabited (OrderedMap α β) := ⟨empty⟩
instance : EmptyCollection (OrderedMap α β) := ⟨empty⟩

/-- Whether the map has no entries. -/
def isEmpty (m : OrderedMap α β) : Bool := m.entries.isEmpty

/-- The number of entries. -/
def size (m : OrderedMap α β) : Nat := m.entries.length

/-- The value that a list of entries gives to `k`. -/
def lookup (k : α) : List (α × β) → Option β
  | [] => none
  | e :: rest =>
    match compare k e.1 with
    | .eq => some e.2
    | _ => lookup k rest

/-- The value at `k`. -/
def get? (m : OrderedMap α β) (k : α) : Option β := lookup k m.entries

/-- Whether `k` has a value. -/
def contains (m : OrderedMap α β) (k : α) : Bool := (m.get? k).isSome

/-- The keys, ascending. -/
def keys (m : OrderedMap α β) : OrderedSet α :=
  ⟨m.entries.map Prod.fst, m.ascending.map Prod.fst fun _ _ h => h⟩

/-- The values, in key order. -/
def values (m : OrderedMap α β) : List β := m.entries.map Prod.snd

/-- Keeps the entries that satisfy `p`. -/
def filter (p : α → β → Bool) (m : OrderedMap α β) : OrderedMap α β :=
  ⟨m.entries.filter (fun e => p e.1 e.2), m.ascending.sublist List.filter_sublist⟩

/-- Removes `k`. -/
def erase (m : OrderedMap α β) (k : α) : OrderedMap α β :=
  ⟨m.entries.filter (fun e => compare k e.1 != .eq), m.ascending.sublist List.filter_sublist⟩

/-- Applies `f` to every value. -/
def mapValues (f : β → γ) (m : OrderedMap α β) : OrderedMap α γ :=
  ⟨m.entries.map (fun e => (e.1, f e.2)), m.ascending.map _ fun _ _ h => h⟩

/-- The map that gives `f k` to each `k` of `keys` where `f` is defined. -/
def tabulate (keys : OrderedSet α) (f : α → Option β) : OrderedMap α β where
  entries := keys.toList.filterMap (fun k => (f k).map (fun v => (k, v)))
  ascending := by
    refine List.Pairwise.filterMap _ (fun a b hab a' ha b' hb => ?_) keys.ascending
    obtain ⟨_, _, rfl⟩ := Option.map_eq_some_iff.1 ha
    obtain ⟨_, _, rfl⟩ := Option.map_eq_some_iff.1 hb
    exact hab

/-- Gives `k` the value `v` in a list of entries. -/
def place (k : α) (v : β) : List (α × β) → List (α × β)
  | [] => [(k, v)]
  | e :: rest =>
    match compare k e.1 with
    | .lt => (k, v) :: e :: rest
    | .eq => (e.1, v) :: rest
    | .gt => e :: place k v rest

theorem mem_place_imp {k : α} {v : β} {e : α × β} {es : List (α × β)} :
    e ∈ place k v es → e.1 = k ∨ ∃ f ∈ es, e.1 = f.1 := by
  induction es with
  | nil => simp +contextual [place]
  | cons f rest ih =>
    simp only [place]
    split <;> intro h
    · rcases List.mem_cons.1 h with rfl | h
      · exact .inl rfl
      · exact .inr ⟨e, h, rfl⟩
    · rcases List.mem_cons.1 h with rfl | h
      · exact .inr ⟨f, List.mem_cons_self, rfl⟩
      · exact .inr ⟨e, List.mem_cons_of_mem _ h, rfl⟩
    · rcases List.mem_cons.1 h with rfl | h
      · exact .inr ⟨e, List.mem_cons_self, rfl⟩
      · exact (ih h).imp_right fun ⟨g, hg, e⟩ => ⟨g, List.mem_cons_of_mem _ hg, e⟩

section Trans

variable [TransOrd α]

theorem pairwise_place (k : α) (v : β) {es : List (α × β)}
    (h : es.Pairwise (fun e f => compare e.1 f.1 = .lt)) :
    (place k v es).Pairwise (fun e f => compare e.1 f.1 = .lt) := by
  induction es with
  | nil => simp [place]
  | cons b rest ih =>
    obtain ⟨hb, hrest⟩ := List.pairwise_cons.1 h
    simp only [place]
    split
    · rename_i hk
      exact List.pairwise_cons.2 ⟨fun c hc => (List.mem_cons.1 hc).elim (fun e => e ▸ hk)
        (fun hc => TransCmp.lt_trans hk (hb c hc)), h⟩
    · exact List.pairwise_cons.2 ⟨hb, hrest⟩
    · rename_i hk
      refine List.pairwise_cons.2 ⟨fun c hc => ?_, ih hrest⟩
      rcases mem_place_imp hc with e | ⟨f, hf, e⟩
      · exact e ▸ OrientedCmp.gt_iff_lt.1 hk
      · exact e ▸ hb f hf

/-- Gives `k` the value `v`. -/
def insert (m : OrderedMap α β) (k : α) (v : β) : OrderedMap α β :=
  ⟨place k v m.entries, pairwise_place k v m.ascending⟩

/-- Gives `k` the value that `f` makes of its present one. -/
def alter (m : OrderedMap α β) (k : α) (f : Option β → β) : OrderedMap α β :=
  m.insert k (f (m.get? k))

/-- The map of the entries in a list, later ones replacing earlier ones of the same key. -/
def ofList (es : List (α × β)) : OrderedMap α β := es.foldl (fun m e => m.insert e.1 e.2) empty

end Trans

section Lawful

@[simp] theorem get?_empty (k : α) : (empty : OrderedMap α β).get? k = none := rfl

variable [LawfulEqOrd α] [DecidableEq α]

theorem lookup_cons (k : α) (e : α × β) (es : List (α × β)) :
    lookup k (e :: es) = if k = e.1 then some e.2 else lookup k es := by
  by_cases h : k = e.1
  · simp [lookup, h, ReflCmp.compare_self]
  · have : compare k e.1 ≠ .eq := fun hc => h (LawfulEqCmp.eq_of_compare hc)
    simp only [lookup, h, if_false]

theorem lookup_filter (k : α) (p : α → Bool) (es : List (α × β)) :
    lookup k (es.filter (fun e => p e.1)) = if p k then lookup k es else none := by
  induction es with
  | nil => simp [lookup]
  | cons e rest ih =>
    rw [List.filter_cons, lookup_cons]
    by_cases hp : p e.1 <;> by_cases h : k = e.1
    · simp [hp, h, lookup_cons]
    · simp [hp, h, lookup_cons, ih]
    · subst h
      simp [hp, ih]
    · simp [hp, h, ih]

theorem lookup_place (k k' : α) (v : β) (es : List (α × β)) :
    lookup k' (place k v es) = if k' = k then some v else lookup k' es := by
  induction es with
  | nil => simp [place, lookup_cons, lookup]
  | cons e rest ih =>
    simp only [place]
    split
    · rw [lookup_cons]
    · rename_i h
      have : k = e.1 := LawfulEqCmp.eq_of_compare h
      rw [lookup_cons, lookup_cons]
      by_cases hk : k' = e.1 <;> simp [this, hk]
    · rename_i h
      have : ¬ k = e.1 := fun he => by simp [he, ReflCmp.compare_self] at h
      rw [lookup_cons, lookup_cons, ih]
      by_cases hk : k' = e.1
      · simp [hk, Ne.symm this]
      · simp [hk]

@[simp] theorem get?_insert [TransOrd α] (m : OrderedMap α β) (k k' : α) (v : β) :
    (m.insert k v).get? k' = if k' = k then some v else m.get? k' :=
  lookup_place k k' v m.entries

@[simp] theorem get?_alter [TransOrd α] (m : OrderedMap α β) (k k' : α) (f : Option β → β) :
    (m.alter k f).get? k' = if k' = k then some (f (m.get? k)) else m.get? k' :=
  get?_insert m k k' _

@[simp] theorem get?_erase (m : OrderedMap α β) (k k' : α) :
    (m.erase k).get? k' = if k' = k then none else m.get? k' := by
  show lookup k' (m.entries.filter _) = _
  rw [lookup_filter k' (fun a => compare k a != .eq)]
  by_cases h : k' = k
  · simp [h, ReflCmp.compare_self]
  · have : compare k k' ≠ .eq := fun hc => h (LawfulEqCmp.eq_of_compare hc).symm
    simp [h, this, get?]

@[simp] theorem get?_mapValues (f : β → γ) (m : OrderedMap α β) (k : α) :
    (m.mapValues f).get? k = (m.get? k).map f := by
  show lookup k (m.entries.map _) = (lookup k m.entries).map f
  induction m.entries with
  | nil => rfl
  | cons e rest ih =>
    rw [List.map_cons, lookup_cons, lookup_cons, ih]
    by_cases h : k = e.1 <;> simp [h]

@[simp] theorem get?_tabulate (keys : OrderedSet α) (f : α → Option β) (k : α) :
    (tabulate keys f).get? k = if k ∈ keys then f k else none := by
  show lookup k (keys.toList.filterMap _) = if k ∈ keys.toList then f k else none
  induction keys.toList with
  | nil => simp [lookup]
  | cons a rest ih =>
    cases ha : f a with
    | none =>
      rw [List.filterMap_cons_none (by simp [ha]), ih]
      by_cases h : k = a <;> simp [h, ha]
    | some v =>
      rw [List.filterMap_cons_some (b := (a, v)) (by simp [ha]), lookup_cons, ih]
      by_cases h : k = a <;> simp [h, ha]

theorem lookup_isSome {k : α} {es : List (α × β)} :
    (lookup k es).isSome ↔ k ∈ es.map Prod.fst := by
  induction es with
  | nil => simp [lookup]
  | cons e rest ih =>
    rw [lookup_cons]
    by_cases h : k = e.1
    · simp [h]
    · simp [h, ih]

theorem mem_keys {m : OrderedMap α β} {k : α} : k ∈ m.keys ↔ (m.get? k).isSome :=
  lookup_isSome.symm

theorem get?_eq_some_iff {m : OrderedMap α β} {k : α} {v : β} :
    m.get? k = some v ↔ (k, v) ∈ m.entries := by
  obtain ⟨es, h⟩ := m
  show lookup k es = some v ↔ (k, v) ∈ es
  induction es with
  | nil => simp [lookup]
  | cons e rest ih =>
    obtain ⟨he, hrest⟩ := List.pairwise_cons.1 h
    rw [lookup_cons, List.mem_cons]
    by_cases hk : k = e.1
    · subst hk
      simp only [if_true, Option.some.injEq]
      refine ⟨fun hv => .inl (hv ▸ rfl), fun hv => hv.elim (fun h => h ▸ rfl) fun hmem => ?_⟩
      exact absurd (he _ hmem) (OrderedSet.compare_self_ne_lt e.1)
    · rw [if_neg hk, ih hrest]
      exact ⟨.inr, fun h => h.resolve_left fun e => hk (e ▸ rfl)⟩

@[simp] theorem get?_filter (p : α → β → Bool) (m : OrderedMap α β) (k : α) :
    (m.filter p).get? k = (m.get? k).filter (p k) := by
  ext v
  rw [get?_eq_some_iff, Option.filter_eq_some_iff, get?_eq_some_iff]
  exact List.mem_filter

/-- The values decide the map. -/
theorem ext_get? [TransOrd α] {m n : OrderedMap α β} (h : ∀ k, m.get? k = n.get? k) : m = n := by
  have := OrderedSet.eq_of_mem_iff (fun e => OrderedSet.compare_self_ne_lt e.1)
    TransCmp.lt_trans m.ascending n.ascending fun e => by
      rw [← get?_eq_some_iff (k := e.1) (v := e.2), h, get?_eq_some_iff]
  cases m; cases n; cases this; rfl

end Lawful
end OrderedMap
end Muster
