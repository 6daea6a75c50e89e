import Muster.Proofs.Catalog

/-!
Direct and indirect subclasses. The direct subclasses of a model are read off the declarations as
they stand, while all of its subclasses are found by a search that leaves out the model it starts
from. So the direct ones are among all of them, with one exception: a model that is declared a
subclass of itself is its own direct subclass.

Main statements: `mem_children`, `mem_descendants`, `listsStrictly_iff`.
-/

namespace Muster

open Relation (ReflTransGen)

/-- Both lists of subclasses of `m` leave `m` out and have no model twice. The direct subclasses are
the other models that were declared so, and they are among all subclasses. -/
structure Catalog.ListsStrictly (c : Catalog) (ds : List Declaration) (m : Model) : Prop where
  mem_direct : ∀ n, n ∈ c.ontology.subclassesOf m true ↔ n ≠ m ∧ .subclass n m ∈ ds
  direct_subset : c.ontology.subclassesOf m true ⊆ c.ontology.subclassesOf m false
  not_mem : ∀ directOnly, m ∉ c.ontology.subclassesOf m directOnly
  nodup : ∀ directOnly, (c.ontology.subclassesOf m directOnly).Nodup

namespace CatalogDraft

variable {ds : List Declaration} {m n : Model}

/-- The direct subclasses of a model are those that were declared. -/
theorem mem_children :
    n ∈ (ofDeclarations ds).build.ontology.subclassesOf m true ↔ .subclass n m ∈ ds := by
  rw [← mem_targets_parents, ← Edges.mem_targets_reverse]
  rfl

/-- The subclasses of a model are the other models from which declared steps lead to it. -/
theorem mem_descendants : n ∈ (ofDeclarations ds).build.ontology.subclassesOf m false ↔
    n ≠ m ∧ ReflTransGen (fun child parent => .subclass child parent ∈ ds) n m := by
  rw [← reaches_parents, ← Edges.reaches_reverse]
  exact Edges.mem_targets_closure

/-- A declared step is a way, so a direct subclass is a subclass unless it is the model itself. -/
theorem mem_descendants_of_mem_children
    (h : n ∈ (ofDeclarations ds).build.ontology.subclassesOf m true) (hne : n ≠ m) :
    n ∈ (ofDeclarations ds).build.ontology.subclassesOf m false :=
  mem_descendants.2 ⟨hne, .single (mem_children.1 h)⟩

theorem not_mem_descendants : m ∉ (ofDeclarations ds).build.ontology.subclassesOf m false :=
  fun h => (mem_descendants.1 h).1 rfl

theorem nodup_subclassesOf (ds : List Declaration) (m : Model) (directOnly : Bool) :
    ((ofDeclarations ds).build.ontology.subclassesOf m directOnly).Nodup := OrderedSet.nodup _

/-- Whatever is declared, in whatever cycles: the lists of subclasses are strict just for the models
that were not declared subclasses of themselves. A model that was is among its own direct
subclasses, but everything else stays as it is. -/
theorem listsStrictly_iff (ds : List Declaration) (m : Model) :
    ((ofDeclarations ds).build.ListsStrictly ds m ↔ .subclass m m ∉ ds) ∧
    (∀ n, n ∈ (ofDeclarations ds).build.ontology.subclassesOf m true ↔ .subclass n m ∈ ds) ∧
    (∀ n ∈ (ofDeclarations ds).build.ontology.subclassesOf m true, n ≠ m →
      n ∈ (ofDeclarations ds).build.ontology.subclassesOf m false) ∧
    m ∉ (ofDeclarations ds).build.ontology.subclassesOf m false ∧
    ∀ directOnly, ((ofDeclarations ds).build.ontology.subclassesOf m directOnly).Nodup := by
  refine ⟨⟨fun h hself => h.not_mem true (mem_children.2 hself), fun hself => ?_⟩,
    fun n => mem_children, fun n hn hne => mem_descendants_of_mem_children hn hne,
    not_mem_descendants, nodup_subclassesOf ds m⟩
  have hother : ∀ n, .subclass n m ∈ ds → n ≠ m := by
    rintro n hn rfl
    exact hself hn
  refine ⟨fun n => ?_, fun n hn => ?_, fun directOnly => ?_, nodup_subclassesOf ds m⟩
  · rw [mem_children, iff_and_self]
    exact hother n
  · exact mem_descendants_of_mem_children hn (hother n (mem_children.1 hn))
  · cases directOnly with
    | false => exact not_mem_descendants
    | true => exact fun h => hself (mem_children.1 h)

/-- Rovers are declared rovers, so they are listed below themselves, but only among the direct
subclasses. -/
theorem subclassesOf_selfDeclared :
    let ds : List Declaration := [.subclass ⟨"Rover"⟩ ⟨"Rover"⟩, .subclass ⟨"Sherpa"⟩ ⟨"Rover"⟩]
    (ofDeclarations ds).build.ontology.subclassesOf ⟨"Rover"⟩ true = [⟨"Rover"⟩, ⟨"Sherpa"⟩] ∧
    (ofDeclarations ds).build.ontology.subclassesOf ⟨"Rover"⟩ false = [⟨"Sherpa"⟩] ∧
    ¬ (ofDeclarations ds).build.ListsStrictly ds ⟨"Rover"⟩ := by
  intro ds
  have hdirect : (ofDeclarations ds).build.ontology.subclassesOf ⟨"Rover"⟩ true =
      [⟨"Rover"⟩, ⟨"Sherpa"⟩] := by decide +kernel
  refine ⟨hdirect, by decide +kernel, fun h => h.not_mem true ?_⟩
  rw [hdirect]
  exact List.mem_cons_self

end CatalogDraft
end Muster
