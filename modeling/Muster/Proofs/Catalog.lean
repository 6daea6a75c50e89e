import Muster.Proofs.Taxonomy

/-!
Catalogs built from declarations. What a draft knows is read off the declarations: an edge of the
taxonomy is there if it was declared, and the restrictions of a model are those that were declared
for it, in order. Turning the edges around turns the ways along them around, so the descendants of a
model are the models that have it as an ancestor. The lineage of a model lists no model twice, so it
inherits each restriction as often as that was declared for it and its ancestors together.

Main statements: `reaches_reverse`, `mem_targets_parents`, `count_restrictionsOn`, `follows_build`.
-/

namespace Muster

open Relation (ReflTransGen)

/-! ### Edges -/

namespace Edges

variable {e r : Edges} {a b k m n : Model}

theorem mem_targets_connect :
    n ∈ (e.connect a b).targets m ↔ n ∈ e.targets m ∨ m = a ∧ n = b := by
  rw [targets, connect, OrderedMap.get?_insert]
  by_cases hm : m = a
  · rw [if_pos hm, Option.getD_some, OrderedSet.mem_insert, hm, or_comm]
    simp
  · rw [if_neg hm]
    simp [targets, hm]

theorem mem_targets_foldl_connect : ∀ {ns : List Model} {r : Edges},
    n ∈ (ns.foldl (fun r x => r.connect x k) r).targets m ↔ n ∈ r.targets m ∨ m ∈ ns ∧ n = k
  | [], r => by simp
  | x :: ns, r => by
    rw [List.foldl_cons, mem_targets_foldl_connect, mem_targets_connect, List.mem_cons, or_assoc,
      or_and_right]

theorem mem_targets_foldl_reverse : ∀ {entries : List (Model × OrderedSet Model)} {r : Edges},
    n ∈ (entries.foldl (fun r entry =>
        entry.2.toList.foldl (fun r x => r.connect x entry.1) r) r).targets m ↔
      n ∈ r.targets m ∨ ∃ s, (n, s) ∈ entries ∧ m ∈ s
  | [], r => by simp
  | entry :: rest, r => by
    rw [List.foldl_cons, mem_targets_foldl_reverse, mem_targets_foldl_connect, or_assoc]
    refine or_congr_right ⟨?_, ?_⟩
    · rintro (⟨hm, rfl⟩ | ⟨s, hs, hm⟩)
      · exact ⟨entry.2, List.mem_cons_self, hm⟩
      · exact ⟨s, List.mem_cons_of_mem _ hs, hm⟩
    · rintro ⟨s, hs, hm⟩
      rcases List.mem_cons.1 hs with rfl | hs
      · exact .inl ⟨hm, rfl⟩
      · exact .inr ⟨s, hs, hm⟩

theorem mem_targets_iff : n ∈ e.targets m ↔ ∃ s, e.get? m = some s ∧ n ∈ s := by
  rw [targets]
  cases e.get? m with
  | none => simp
  | some s => simp

theorem mem_targets_reverse : n ∈ e.reverse.targets m ↔ m ∈ e.targets n := by
  have hnone : n ∉ targets .empty m := OrderedSet.not_mem_empty n
  rw [reverse, mem_targets_foldl_reverse, or_iff_right hnone, mem_targets_iff]
  simp only [OrderedMap.get?_eq_some_iff]

/-- The ways along the edges that are turned around are the ways back. -/
theorem reaches_reverse : e.reverse.Reaches a b ↔ e.Reaches b a := by
  rw [Reaches, Reaches, ← Relation.reflTransGen_swap]
  have hstep : (fun m n => n ∈ e.reverse.targets m) = Function.swap fun m n => n ∈ e.targets m := by
    funext m n
    exact propext mem_targets_reverse
  rw [hstep]

theorem targets_closure (e : Edges) (m : Model) : e.closure.targets m = e.reachable m :=
  OrderedSet.ext_mem fun _ => mem_targets_closure.trans mem_reachable.symm

end Edges

/-! ### Declarations -/

/-- One declaration about models. -/
inductive Declaration where
  | subclass (child parent : Model)
  | restriction (m : Model) (r : CardinalityRestriction)
  | has (m qualification : Model) (min max : UInt32)
  | dataValue (m property : Model) (value : Double)
  | relation (subject link object : Model)
  | compatible (a b : Model)
deriving DecidableEq

namespace Declaration

/-- Adds a declaration to a draft. -/
def addTo (d : CatalogDraft) : Declaration → CatalogDraft
  | subclass child parent => d.subclass child parent
  | restriction m r => d.restriction m r
  | has m qualification min max => d.has m qualification min max
  | dataValue m property value => d.dataValue m property value
  | relation subject link object => d.relation subject link object
  | compatible a b => d.compatible a b

/-- The restrictions that are declared, with the models that they are declared for. -/
def restrictions : Declaration → List (Model × CardinalityRestriction)
  | restriction m r => [(m, r)]
  | has m qualification min max =>
    [(m, ⟨Vocabulary.has, qualification, min, .min⟩),
      (m, ⟨Vocabulary.has, qualification, max, .max⟩)]
  | _ => []

end Declaration

namespace CatalogDraft

variable {d : CatalogDraft} {ds : List Declaration} {a b m n : Model}

/-- The draft that declarations make, one after the other. -/
def ofDeclarations (ds : List Declaration) : CatalogDraft := ds.foldl Declaration.addTo {}

/-- The restrictions of a model itself. -/
def restrictionsOf (d : CatalogDraft) (m : Model) : List CardinalityRestriction :=
  (d.restrictions.get? m).getD []

/-- What is listed for a model. -/
def listedFor (stated : List (Model × CardinalityRestriction)) (m : Model) :
    List CardinalityRestriction := (stated.filter (·.1 == m)).map Prod.snd

theorem mem_targets_addTo (c : Declaration) : n ∈ (c.addTo d).parents.targets m ↔
    n ∈ d.parents.targets m ∨ c = .subclass m n := by
  cases c with
  | subclass child parent =>
    refine Edges.mem_targets_connect.trans (or_congr_right ?_)
    rw [Declaration.subclass.injEq, eq_comm, @eq_comm _ n]
  | _ => exact (or_iff_left (by simp)).symm

theorem restrictionsOf_restriction (r : CardinalityRestriction) :
    (d.restriction a r).restrictionsOf m = d.restrictionsOf m ++ listedFor [(a, r)] m := by
  rw [restrictionsOf, restriction, OrderedMap.get?_alter, restrictionsOf, listedFor]
  by_cases hm : m = a
  · simp [hm]
  · simp [hm, Ne.symm hm]

theorem restrictionsOf_addTo (c : Declaration) :
    (c.addTo d).restrictionsOf m = d.restrictionsOf m ++ listedFor c.restrictions m := by
  cases c with
  | restriction a r => exact restrictionsOf_restriction r
  | has a qualification min max =>
    show ((d.restriction a _).restriction a _).restrictionsOf m = _
    rw [restrictionsOf_restriction, restrictionsOf_restriction, List.append_assoc]
    refine congrArg (d.restrictionsOf m ++ ·) ?_
    rw [listedFor, listedFor, listedFor, ← List.map_append, ← List.filter_append]
    rfl
  | _ => exact (List.append_nil _).symm

theorem mem_targets_foldl_addTo : ∀ {ds : List Declaration} {d : CatalogDraft},
    n ∈ (ds.foldl Declaration.addTo d).parents.targets m ↔
      n ∈ d.parents.targets m ∨ .subclass m n ∈ ds
  | [], d => by simp
  | c :: ds, d => by
    rw [List.foldl_cons, mem_targets_foldl_addTo, mem_targets_addTo, List.mem_cons, or_assoc,
      @eq_comm _ c]

theorem restrictionsOf_foldl_addTo : ∀ {ds : List Declaration} {d : CatalogDraft},
    (ds.foldl Declaration.addTo d).restrictionsOf m =
      d.restrictionsOf m ++ listedFor (ds.flatMap Declaration.restrictions) m
  | [], d => (List.append_nil _).symm
  | c :: ds, d => by
    rw [List.foldl_cons, restrictionsOf_foldl_addTo, restrictionsOf_addTo, List.append_assoc,
      List.flatMap_cons]
    simp only [listedFor, List.filter_append, List.map_append]

/-- A model points to its declared parents. -/
theorem mem_targets_parents :
    n ∈ (ofDeclarations ds).parents.targets m ↔ .subclass m n ∈ ds :=
  mem_targets_foldl_addTo.trans (or_iff_right (OrderedSet.not_mem_empty n))

/-- A model has the restrictions that were declared for it, in order. -/
theorem restrictionsOf_ofDeclarations :
    (ofDeclarations ds).restrictionsOf m = listedFor (ds.flatMap Declaration.restrictions) m :=
  restrictionsOf_foldl_addTo

theorem reaches_parents : (ofDeclarations ds).parents.Reaches a b ↔
    ReflTransGen (fun child parent => .subclass child parent ∈ ds) a b := by
  have hstep : (fun m n => n ∈ (ofDeclarations ds).parents.targets m) =
      fun child parent => Declaration.subclass child parent ∈ ds := by
    funext m n
    exact propext mem_targets_parents
  rw [Edges.Reaches, hstep]

/-! ### Lineages -/

theorem mem_lineage : n ∈ d.build.lineage m ↔ d.build.ontology.isSameOrSubclassOf m n = true := by
  rw [Catalog.lineage, List.mem_cons, Ontology.isSameOrSubclassOf, Bool.or_eq_true, beq_iff_eq,
    eq_comm]
  exact or_congr_right List.contains_iff_mem.symm

theorem nodup_lineage (d : CatalogDraft) (m : Model) : (d.build.lineage m).Nodup :=
  List.nodup_cons.2 ⟨fun h => (Edges.mem_targets_closure.1 h).1 rfl, OrderedSet.nodup _⟩

/-- What different models are listed for is counted in one go. -/
theorem count_flatMap_listedFor (stated : List (Model × CardinalityRestriction))
    (x : CardinalityRestriction) : ∀ {models : List Model}, models.Nodup →
    (models.flatMap (listedFor stated)).count x =
      stated.countP fun s => decide (s.1 ∈ models) && s.2 == x
  | [], _ => by simp
  | m :: models, h => by
    obtain ⟨hm, hmodels⟩ := List.nodup_cons.1 h
    rw [List.flatMap_cons, List.count_append, count_flatMap_listedFor stated x hmodels, listedFor,
      List.count, List.countP_map, List.countP_filter,
      List.countP_eq_countP_filter_add stated (fun s => decide (s.1 ∈ m :: models) && s.2 == x)
        fun s => s.1 == m, List.countP_filter, List.countP_filter]
    congr 1
    · refine List.countP_congr fun s _ => ?_
      by_cases hs : s.1 = m <;> simp [hs]
    · refine List.countP_congr fun s _ => ?_
      by_cases hs : s.1 = m <;> simp [hs, hm]

/-- A model inherits a restriction as often as it was declared for the models of its lineage. -/
theorem count_restrictionsOn (ds : List Declaration) (a relation : Model)
    (x : CardinalityRestriction) :
    ((ofDeclarations ds).build.restrictionsOn a relation).count x =
      (ds.flatMap Declaration.restrictions).countP fun s =>
        (ofDeclarations ds).build.ontology.isSameOrSubclassOf a s.1 && s.2 == x &&
          x.relation == relation := by
  have hown : (fun n => ((ofDeclarations ds).build.restrictions.get? n).getD []) =
      listedFor (ds.flatMap Declaration.restrictions) := by
    funext n
    exact restrictionsOf_ofDeclarations
  rw [Catalog.restrictionsOn, hown]
  by_cases hx : x.relation = relation
  · have hkept : ∀ l : List CardinalityRestriction,
        (l.filter (·.relation == relation)).count x = l.count x := fun l =>
      List.count_filter (beq_iff_eq.2 hx)
    rw [hkept, count_flatMap_listedFor _ _ (nodup_lineage _ a)]
    refine List.countP_congr fun s _ => ?_
    simp [mem_lineage, hx]
  · rw [List.count_eq_zero_of_not_mem fun h => hx (by simpa using (List.mem_filter.1 h).2), eq_comm,
      List.countP_eq_zero]
    simp [hx]

end CatalogDraft

/-- A catalog knows what follows from declarations: the searches for ancestors and descendants came
to an end, a model is a subclass of the other models that the declared steps lead to, and it has the
restrictions that were declared for it and for these. -/
structure Catalog.Follows (c : Catalog) (ds : List Declaration) : Prop where
  ancestors_settle : ∀ a, (CatalogDraft.ofDeclarations ds).parents.Settles a .empty (.singleton a)
    (c.ancestors.targets a)
  descendants_settle : ∀ a, (CatalogDraft.ofDeclarations ds).parents.reverse.Settles a .empty
    (.singleton a) (c.descendants.targets a)
  isSubclassOf_iff : ∀ a b, c.ontology.isSubclassOf a b = true ↔
    a ≠ b ∧ ReflTransGen (fun child parent => .subclass child parent ∈ ds) a b
  mem_subclassesOf_iff : ∀ a b, b ∈ c.ontology.subclassesOf a false ↔
    c.ontology.isSubclassOf b a = true
  refl : ∀ a, c.ontology.isSameOrSubclassOf a a = true
  trans : ∀ a b d, c.ontology.isSameOrSubclassOf a b = true →
    c.ontology.isSameOrSubclassOf b d = true → c.ontology.isSameOrSubclassOf a d = true
  count_restrictions : ∀ a relation x, (c.ontology.restrictions a relation).count x =
    (ds.flatMap Declaration.restrictions).countP fun s =>
      c.ontology.isSameOrSubclassOf a s.1 && s.2 == x && x.relation == relation

/-- What a catalog knows follows from the declarations that it is built from, in whatever cycles
they run. -/
theorem CatalogDraft.follows_build (ds : List Declaration) :
    (ofDeclarations ds).build.Follows ds where
  ancestors_settle a := by
    show Edges.Settles _ a _ _ (Edges.targets (Edges.closure _) a)
    rw [Edges.targets_closure]
    exact Edges.settles_reachable _ a
  descendants_settle a := by
    show Edges.Settles _ a _ _ (Edges.targets (Edges.closure _) a)
    rw [Edges.targets_closure]
    exact Edges.settles_reachable _ a
  isSubclassOf_iff a b := by rw [isSubclassOf_iff, reaches_parents, ne_comm]
  mem_subclassesOf_iff a b := by
    rw [isSubclassOf_iff, ne_comm, ← Edges.reaches_reverse]
    exact Edges.mem_targets_closure
  refl a := isSameOrSubclassOf_iff.2 .refl
  trans _ _ _ := isTransitive _
  count_restrictions := count_restrictionsOn ds

/-- On a cycle every other model is an ancestor, and a model is not its own. -/
example : let c := (CatalogDraft.ofDeclarations [.subclass ⟨"A"⟩ ⟨"B"⟩, .subclass ⟨"B"⟩ ⟨"A"⟩,
    .subclass ⟨"A"⟩ ⟨"A"⟩]).build
    c.isSubclassOf ⟨"A"⟩ ⟨"B"⟩ = true ∧ c.isSubclassOf ⟨"A"⟩ ⟨"A"⟩ = false := by
  decide +kernel

end Muster
