import Muster.Proofs.Catalog
import Muster.Double.Arithmetic

/-!
Data values that are inherited. A model that no value is stated for has the value of the first of its
ancestors, in the order of models, that one is stated for; how many steps away that ancestor is does
not count. So models that pass on the question to their only parent agree in their value with each
other, but need not agree with the first model above them that has a value of its own: an ancestor of
that model may come before it.

Main statements: `OrderedSet.findSome?_cases`, `ownValue_ofDeclarations`, `dataValue_cases`,
`dataValue_of_defersTo`.
-/

namespace Muster

open Std
open Relation (ReflTransGen TransGen)

/-- What is found first in a set belongs to the least member that has something to be found. -/
theorem OrderedSet.findSome?_cases {α β : Type} [Ord α] [ReflOrd α] (s : OrderedSet α)
    (f : α → Option β) :
    (∃ a ∈ s, f a ≠ none ∧ (∀ b ∈ s, f b ≠ none → (compare a b).isLE) ∧
      s.toList.findSome? f = f a) ∨
    (∀ a ∈ s, f a = none) ∧ s.toList.findSome? f = none := by
  cases h : s.toList.findSome? f with
  | none => exact .inr ⟨List.findSome?_eq_none_iff.1 h, rfl⟩
  | some v =>
    obtain ⟨before, a, after, hlist, ha, hbefore⟩ := List.findSome?_eq_some_iff.1 h
    refine .inl ⟨a, ?_, by rw [ha]; simp, fun b hb hsome => ?_, ha.symm⟩
    · rw [OrderedSet.mem_def, hlist]
      exact List.mem_append_right _ List.mem_cons_self
    · have hascending := s.ascending
      rw [hlist, List.pairwise_append, List.pairwise_cons] at hascending
      rw [OrderedSet.mem_def, hlist, List.mem_append, List.mem_cons] at hb
      rcases hb with hb | rfl | hb
      · exact absurd (hbefore b hb) hsome
      · simp [ReflCmp.compare_self]
      · simp [hascending.2.1.1 b hb]

/-! ### Stated values -/

/-- The value that a declaration states for a property of a model. -/
def Declaration.value? (m property : Model) : Declaration → Option Double
  | dataValue n p v => if m = n ∧ property = p then some v else none
  | _ => none

namespace CatalogDraft

variable {d : CatalogDraft} {ds : List Declaration} {property m n q : Model}

/-- The value that declarations state for a property of a model; the last statement counts. -/
def statedValue? (ds : List Declaration) (m property : Model) : Option Double :=
  ds.reverse.findSome? (Declaration.value? m property)

/-- The value of a property that a draft has for a model itself. -/
def ownValue (d : CatalogDraft) (m property : Model) : Option Double :=
  (d.data.get? m).bind (·.get? property)

theorem statedValue?_cons (c : Declaration) (ds : List Declaration) (m property : Model) :
    statedValue? (c :: ds) m property = (statedValue? ds m property).or (c.value? m property) := by
  rw [statedValue?, List.reverse_cons, List.findSome?_append, List.findSome?_singleton]
  rfl

theorem statedValue?_eq_none_iff :
    statedValue? ds m property = none ↔ ∀ v, .dataValue m property v ∉ ds := by
  rw [statedValue?, List.findSome?_eq_none_iff]
  constructor
  · intro h v hv
    have hnone := h _ (List.mem_reverse.2 hv)
    simp [Declaration.value?] at hnone
  · intro h c hc
    cases c with
    | dataValue n p v =>
      refine if_neg ?_
      rintro ⟨rfl, rfl⟩
      exact h v (List.mem_reverse.1 hc)
    | _ => rfl

theorem ownValue_addTo (c : Declaration) (d : CatalogDraft) (m property : Model) :
    (c.addTo d).ownValue m property = (c.value? m property).or (d.ownValue m property) := by
  cases c with
  | dataValue n p v =>
    show ((d.data.alter n _).get? m).bind _ = (if _ then _ else _ : Option Double).or _
    rw [OrderedMap.get?_alter]
    by_cases hm : m = n
    · subst hm
      rw [if_pos rfl, Option.bind_some, OrderedMap.get?_insert]
      by_cases hp : property = p
      · simp [hp]
      · rw [if_neg hp, if_neg fun h => hp h.2, Option.none_or, ownValue]
        cases d.data.get? m <;> rfl
    · rw [if_neg hm, if_neg fun h => hm h.1, Option.none_or, ownValue]
  | _ => rfl

theorem ownValue_foldl_addTo : ∀ {ds : List Declaration} {d : CatalogDraft},
    (ds.foldl Declaration.addTo d).ownValue m property =
      (statedValue? ds m property).or (d.ownValue m property)
  | [], _ => rfl
  | c :: ds, d => by
    rw [List.foldl_cons, ownValue_foldl_addTo, ownValue_addTo, statedValue?_cons, Option.or_assoc]

/-- A model itself has the value that is stated for it. -/
theorem ownValue_ofDeclarations :
    (ofDeclarations ds).ownValue m property = statedValue? ds m property :=
  ownValue_foldl_addTo.trans (Option.or_none)

/-! ### Inherited values -/

/-- Whether the declared steps lead from one model to another, in any number of steps. -/
def IsKindOf (ds : List Declaration) : Model → Model → Prop :=
  ReflTransGen fun child parent => .subclass child parent ∈ ds

theorem isKindOf_iff_mem_lineage : IsKindOf ds m n ↔ n ∈ (ofDeclarations ds).build.lineage m := by
  rw [mem_lineage, isSameOrSubclassOf_iff, reaches_parents]
  rfl

/-- Of the models that `m` is a kind of, `n` is the first that a value is stated for. -/
structure IsFirstValued (ds : List Declaration) (property m n : Model) : Prop where
  isKindOf : IsKindOf ds m n
  valued : statedValue? ds n property ≠ none
  first : ∀ k, IsKindOf ds m k → statedValue? ds k property ≠ none → (compare n k).isLE

theorem IsFirstValued.unique {k : Model} (hn : IsFirstValued ds property m n)
    (hk : IsFirstValued ds property m k) : n = k :=
  LawfulEqCmp.eq_of_compare (OrientedCmp.isLE_antisymm (hn.first k hk.isKindOf hk.valued)
    (hk.first n hn.isKindOf hn.valued))

theorem dataValue_eq (ds : List Declaration) (m property : Model) :
    (ofDeclarations ds).build.ontology.dataValue m property =
      ((ofDeclarations ds).build.lineage m).findSome? fun n => statedValue? ds n property := by
  simp only [← ownValue_ofDeclarations]
  rfl

/-- A model with a value of its own has that value. -/
theorem dataValue_of_stated {v : Double} (hm : statedValue? ds m property = some v) :
    (ofDeclarations ds).build.ontology.dataValue m property = some v := by
  rw [dataValue_eq, Catalog.lineage, List.findSome?_cons, hm]

/-- A model without a value of its own has that of the first of its ancestors with one. -/
theorem dataValue_cases (hm : statedValue? ds m property = none) :
    (∃ n, IsFirstValued ds property m n ∧
      (ofDeclarations ds).build.ontology.dataValue m property = statedValue? ds n property) ∨
    (∀ n, IsKindOf ds m n → statedValue? ds n property = none) ∧
      (ofDeclarations ds).build.ontology.dataValue m property = none := by
  have hmem : ∀ {n}, n ∈ (ofDeclarations ds).parents.closure.targets m ↔ n ≠ m ∧ IsKindOf ds m n :=
    Edges.mem_targets_closure.trans (and_congr_right fun _ => reaches_parents)
  have hother : ∀ {n}, statedValue? ds n property ≠ none → n ≠ m := fun hn h => hn (h ▸ hm)
  rw [dataValue_eq, Catalog.lineage, List.findSome?_cons, hm]
  rcases OrderedSet.findSome?_cases ((ofDeclarations ds).parents.closure.targets m)
    fun n => statedValue? ds n property with ⟨n, hn, hsome, hfirst, hvalue⟩ | ⟨hnone, hvalue⟩
  · exact .inl ⟨n, ⟨(hmem.1 hn).2, hsome, fun k hk hvalued =>
      hfirst k (hmem.2 ⟨hother hvalued, hk⟩) hvalued⟩, hvalue⟩
  · refine .inr ⟨fun n hn => ?_, hvalue⟩
    by_cases h : n = m
    · rw [h, hm]
    · exact hnone n (hmem.2 ⟨h, hn⟩)

/-! ### Only parents -/

/-- No value is stated for `m`, and `q` is its only declared parent. -/
structure DefersTo (ds : List Declaration) (property m q : Model) : Prop where
  unvalued : ∀ v, .dataValue m property v ∉ ds
  parent_iff : ∀ n, .subclass m n ∈ ds ↔ n = q

theorem DefersTo.isKindOf_iff (h : DefersTo ds property m q) :
    IsKindOf ds m n ↔ n = m ∨ IsKindOf ds q n := by
  constructor
  · intro hn
    rcases ReflTransGen.cases_head hn with rfl | ⟨k, hk, hn⟩
    · exact .inl rfl
    · rw [h.parent_iff] at hk
      exact .inr (hk ▸ hn)
  · rintro (rfl | hn)
    · exact .refl
    · exact .head ((h.parent_iff q).2 rfl) hn

/-- A model that defers to another has the same first valued ancestor. -/
theorem DefersTo.isFirstValued_iff (h : DefersTo ds property m q) :
    IsFirstValued ds property m n ↔ IsFirstValued ds property q n := by
  have hkind : ∀ {k}, statedValue? ds k property ≠ none → (IsKindOf ds m k ↔ IsKindOf ds q k) := by
    intro k hvalued
    rw [h.isKindOf_iff, or_iff_right]
    rintro rfl
    exact hvalued (statedValue?_eq_none_iff.2 h.unvalued)
  constructor
  · exact fun ⟨hn, hvalued, hfirst⟩ => ⟨(hkind hvalued).1 hn, hvalued,
      fun k hk hvalued' => hfirst k ((hkind hvalued').2 hk) hvalued'⟩
  · exact fun ⟨hn, hvalued, hfirst⟩ => ⟨(hkind hvalued).2 hn, hvalued,
      fun k hk hvalued' => hfirst k ((hkind hvalued').1 hk) hvalued'⟩

section Chain

variable (h : TransGen (DefersTo ds property) m q)
include h

theorem isFirstValued_iff_of_chain :
    IsFirstValued ds property m n ↔ IsFirstValued ds property q n := by
  induction h with
  | single h => exact h.isFirstValued_iff
  | tail _ h ih => exact ih.trans h.isFirstValued_iff

theorem isKindOf_of_chain : IsKindOf ds m q := by
  induction h with
  | single h => exact h.isKindOf_iff.2 (.inr .refl)
  | tail _ h ih => exact ih.trans (h.isKindOf_iff.2 (.inr .refl))

theorem statedValue?_of_chain : statedValue? ds m property = none := by
  obtain ⟨k, hk, -⟩ := TransGen.head'_iff.1 h
  exact statedValue?_eq_none_iff.2 hk.unvalued

/-- Models that defer to their only parents, one after the other, have the value of the first model,
in the order of models, that one is stated for among the model that they lead to and its ancestors.
That is the value of the model that they lead to, unless this one has a value of its own and an
ancestor with another value comes first. -/
theorem dataValue_of_defersTo :
    ((∃ n, IsFirstValued ds property q n ∧
        (ofDeclarations ds).build.ontology.dataValue m property = statedValue? ds n property) ∨
      (∀ n, IsKindOf ds q n → statedValue? ds n property = none) ∧
        (ofDeclarations ds).build.ontology.dataValue m property = none) ∧
    ((ofDeclarations ds).build.ontology.dataValue m property =
        (ofDeclarations ds).build.ontology.dataValue q property ↔
      statedValue? ds q property = none ∨
        ∀ n, IsFirstValued ds property q n →
          statedValue? ds n property = statedValue? ds q property) := by
  have hcases : (∃ n, IsFirstValued ds property q n ∧
      (ofDeclarations ds).build.ontology.dataValue m property = statedValue? ds n property) ∨
      (∀ n, IsKindOf ds q n → statedValue? ds n property = none) ∧
        (ofDeclarations ds).build.ontology.dataValue m property = none := by
    rcases dataValue_cases (statedValue?_of_chain h) with ⟨n, hn, hvalue⟩ | ⟨hnone, hvalue⟩
    · exact .inl ⟨n, (isFirstValued_iff_of_chain h).1 hn, hvalue⟩
    · exact .inr ⟨fun n hn => hnone n ((isKindOf_of_chain h).trans hn), hvalue⟩
  refine ⟨hcases, ?_⟩
  cases hq : statedValue? ds q property with
  | none =>
    refine iff_of_true ?_ (.inl rfl)
    rcases hcases, dataValue_cases hq with
      ⟨⟨n, hn, hvalue⟩ | ⟨hnone, hvalue⟩, ⟨k, hk, hvalue'⟩ | ⟨hnone', hvalue'⟩⟩
    · rw [hvalue, hvalue', hn.unique hk]
    · exact absurd (hnone' n hn.isKindOf) hn.valued
    · exact absurd (hnone k hk.isKindOf) hk.valued
    · rw [hvalue, hvalue']
  | some v =>
    rw [dataValue_of_stated hq, or_iff_right (by simp)]
    rcases hcases with ⟨n, hn, hvalue⟩ | ⟨hnone, -⟩
    · rw [hvalue]
      exact ⟨fun h k hk => hk.unique hn ▸ h, fun h => h n hn⟩
    · exact absurd (hnone q .refl) (by simp [hq])

end Chain

/-- Whether no model is above itself. -/
def IsAcyclic (ds : List Declaration) : Prop :=
  ∀ m, ¬TransGen (fun child parent => .subclass child parent ∈ ds) m m

/-- Models whose parents all have a smaller rank are not above themselves. -/
theorem isAcyclic_of_rank (rank : Model → Nat)
    (hrank : ∀ child parent, .subclass child parent ∈ ds → rank parent < rank child) :
    IsAcyclic ds := by
  have hlt : ∀ {m n}, TransGen (fun child parent => .subclass child parent ∈ ds) m n →
      rank n < rank m := by
    intro m n h
    induction h with
    | single h => exact hrank _ _ h
    | tail _ h ih => exact (hrank _ _ h).trans ih
  exact fun m h => Nat.lt_irrefl _ (hlt h)

/-- Scouts are sherpas and sherpas are rovers. Rovers weigh 8 units and what is above them 4. -/
def roversBelow (top : Model) : List Declaration :=
  [.subclass ⟨"Scout"⟩ ⟨"Sherpa"⟩, .subclass ⟨"Sherpa"⟩ ⟨"Rover"⟩, .subclass ⟨"Rover"⟩ top,
    .dataValue ⟨"Rover"⟩ ⟨"mass"⟩ 8, .dataValue top ⟨"mass"⟩ 4]

/-- Vehicles come after rovers, so scouts weigh as much as rovers. -/
theorem dataValue_roversBelow_vehicle :
    TransGen (DefersTo (roversBelow ⟨"Vehicle"⟩) ⟨"mass"⟩) ⟨"Scout"⟩ ⟨"Rover"⟩ ∧
    (ofDeclarations (roversBelow ⟨"Vehicle"⟩)).build.ontology.dataValue ⟨"Scout"⟩ ⟨"mass"⟩ =
      some 8 := by
  have hscout : DefersTo (roversBelow ⟨"Vehicle"⟩) ⟨"mass"⟩ ⟨"Scout"⟩ ⟨"Sherpa"⟩ :=
    ⟨by simp [roversBelow], by simp [roversBelow]⟩
  have hsherpa : DefersTo (roversBelow ⟨"Vehicle"⟩) ⟨"mass"⟩ ⟨"Sherpa"⟩ ⟨"Rover"⟩ :=
    ⟨by simp [roversBelow], by simp [roversBelow]⟩
  have hchain := TransGen.head hscout (.single hsherpa)
  have hrover : statedValue? (roversBelow ⟨"Vehicle"⟩) ⟨"Rover"⟩ ⟨"mass"⟩ = some 8 := by
    decide +kernel
  have hlineage : (ofDeclarations (roversBelow ⟨"Vehicle"⟩)).build.lineage ⟨"Rover"⟩ =
      [⟨"Rover"⟩, ⟨"Vehicle"⟩] := by
    decide +kernel
  refine ⟨hchain, ((dataValue_of_defersTo hchain).2.2 (.inr fun n hn => ?_)).trans
    (dataValue_of_stated hrover)⟩
  have hmem := isKindOf_iff_mem_lineage.1 hn.isKindOf
  rw [hlineage, List.mem_pair] at hmem
  rcases hmem with rfl | rfl
  · rfl
  · have hle := hn.first ⟨"Rover"⟩ .refl (by simp [hrover])
    exact absurd hle (by decide +kernel)

/-- Actors come before rovers, so sherpas weigh less than rovers, their only parent. -/
theorem dataValue_roversBelow_actor : IsAcyclic (roversBelow ⟨"Actor"⟩) ∧
    DefersTo (roversBelow ⟨"Actor"⟩) ⟨"mass"⟩ ⟨"Sherpa"⟩ ⟨"Rover"⟩ ∧
    (ofDeclarations (roversBelow ⟨"Actor"⟩)).build.ontology.dataValue ⟨"Sherpa"⟩ ⟨"mass"⟩ =
      some 4 ∧
    (ofDeclarations (roversBelow ⟨"Actor"⟩)).build.ontology.dataValue ⟨"Rover"⟩ ⟨"mass"⟩ =
      some 8 ∧
    (4 : Double) ≠ 8 := by
  refine ⟨isAcyclic_of_rank ([⟨"Actor"⟩, ⟨"Rover"⟩, ⟨"Sherpa"⟩, ⟨"Scout"⟩].idxOf ·) ?_,
    ⟨by simp [roversBelow], by simp [roversBelow]⟩, by decide +kernel, by decide +kernel,
    by decide +kernel⟩
  intro child parent h
  simp only [roversBelow, List.mem_cons, Declaration.subclass.injEq, reduceCtorEq,
    List.not_mem_nil, or_false] at h
  rcases h with ⟨rfl, rfl⟩ | ⟨rfl, rfl⟩ | ⟨rfl, rfl⟩ <;> decide +kernel

end CatalogDraft
end Muster
