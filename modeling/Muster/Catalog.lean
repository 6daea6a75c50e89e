import Muster.Ontology
import Muster.Vocabulary

/-!
An ontology put together from declarations. Subclasses reach through any number of declared steps,
and a model inherits the restrictions and data values of its ancestors. Declarations may form
cycles; no model is ever its own subclass.
-/

namespace Muster

open Std

/-- Which models each model points to. -/
abbrev Edges := OrderedMap Model (OrderedSet Model)

namespace Edges

/-- The models that `m` points to. -/
def targets (e : Edges) (m : Model) : OrderedSet Model := (e.get? m).getD .empty

/-- Lets `m` point to `n` as well. -/
def connect (e : Edges) (m n : Model) : Edges := e.insert m ((e.targets m).insert n)

/-- Every edge, turned around. -/
def reverse (e : Edges) : Edges :=
  e.entries.foldl (fun r entry => entry.2.toList.foldl (fun r n => r.connect n entry.1) r) .empty

/-- All models that some model points to. -/
def allTargets (e : Edges) : OrderedSet Model :=
  e.values.foldl (fun s t => s ∪ t) .empty

/-- What a set of models points to, the start and known models left out. -/
def fresh (e : Edges) (start : Model) (known frontier : OrderedSet Model) : OrderedSet Model :=
  (frontier.toList.foldl (fun s m => s ∪ e.targets m) .empty).filter
    fun m => m != start && !known.toList.contains m

/-- Adds to `known` whatever can be reached through `frontier`, in at most `fuel` rounds. -/
def spread (e : Edges) (start : Model) : Nat → OrderedSet Model → OrderedSet Model →
    OrderedSet Model
  | 0, known, _ => known
  | fuel + 1, known, frontier =>
    let next := e.fresh start known frontier
    if next.isEmpty then known else e.spread start fuel (known ∪ next) next

/-- The models reached from `start` in one step or more, `start` left out. Each round but the last
finds a new target, so there are no more rounds than targets. -/
def reachable (e : Edges) (start : Model) : OrderedSet Model :=
  e.spread start (e.allTargets.size + 1) .empty (.singleton start)

/-- The models reached from each model that points to one. -/
def closure (e : Edges) : Edges := .tabulate e.keys fun m => some (e.reachable m)

end Edges

/-- Declarations about models. -/
structure CatalogDraft where
  parents : Edges := .empty
  restrictions : OrderedMap Model (List CardinalityRestriction) := .empty
  data : OrderedMap Model (OrderedMap Model Double) := .empty
  relations : List (Model × Model × Model) := []
deriving Inhabited

namespace CatalogDraft

/-- Declares `child` a direct subclass of `parent`. -/
def subclass (d : CatalogDraft) (child parent : Model) : CatalogDraft :=
  { d with parents := d.parents.connect child parent }

/-- Declares a restriction of `m`. -/
def restriction (d : CatalogDraft) (m : Model) (r : CardinalityRestriction) : CatalogDraft :=
  { d with restrictions := d.restrictions.alter m fun rs => rs.getD [] ++ [r] }

/-- Declares that `m` has between `min` and `max` resources of a class. -/
def has (d : CatalogDraft) (m qualification : Model) (min max : UInt32) : CatalogDraft :=
  (d.restriction m ⟨Vocabulary.has, qualification, min, .min⟩).restriction m
    ⟨Vocabulary.has, qualification, max, .max⟩

/-- Declares the value of a data property of `m`. -/
def dataValue (d : CatalogDraft) (m property : Model) (value : Double) : CatalogDraft :=
  { d with data := d.data.alter m fun values => (values.getD .empty).insert property value }

/-- Declares that `subject` stands in a relation to `object`. -/
def relation (d : CatalogDraft) (subject relation object : Model) : CatalogDraft :=
  { d with relations := (subject, relation, object) :: d.relations }

/-- Declares that two types of interfaces fit together. -/
def compatible (d : CatalogDraft) (a b : Model) : CatalogDraft :=
  d.relation a Vocabulary.compatibleWith b

end CatalogDraft

/-- Declarations about models, with what follows from them about the taxonomy. -/
structure Catalog where
  children : Edges
  ancestors : Edges
  descendants : Edges
  restrictions : OrderedMap Model (List CardinalityRestriction)
  data : OrderedMap Model (OrderedMap Model Double)
  relations : List (Model × Model × Model)
deriving Inhabited

/-- Works out the taxonomy of a draft. -/
def CatalogDraft.build (d : CatalogDraft) : Catalog where
  children := d.parents.reverse
  ancestors := d.parents.closure
  descendants := d.parents.reverse.closure
  restrictions := d.restrictions
  data := d.data
  relations := d.relations

namespace Catalog

/-- A model, then its ancestors in order. -/
def lineage (c : Catalog) (m : Model) : List Model := m :: (c.ancestors.targets m).toList

/-- The subclasses of `m`, or only its declared children. -/
def subclassesOf (c : Catalog) (m : Model) (directOnly : Bool) : List Model :=
  ((if directOnly then c.children else c.descendants).targets m).toList

/-- Whether `parent` is an ancestor of `m`. -/
def isSubclassOf (c : Catalog) (m parent : Model) : Bool :=
  (c.ancestors.targets m).toList.contains parent

/-- The restrictions on a relation, declared for `m` or for an ancestor. -/
def restrictionsOn (c : Catalog) (m relation : Model) : List CardinalityRestriction :=
  ((c.lineage m).flatMap fun n => (c.restrictions.get? n).getD []).filter
    (·.relation == relation)

/-- The first value of a property along the lineage of `m`. -/
def dataValue (c : Catalog) (m property : Model) : Option Double :=
  (c.lineage m).findSome? fun n => (c.data.get? n).bind (·.get? property)

/-- Whether a relation was declared. -/
def isRelated (c : Catalog) (subject relation object : Model) : Bool :=
  c.relations.contains (subject, relation, object)

/-- The catalog as an ontology. -/
def ontology (c : Catalog) : Ontology where
  subclassesOf := c.subclassesOf
  isSubclassOf := c.isSubclassOf
  restrictions := c.restrictionsOn
  dataValue := c.dataValue
  isRelated := c.isRelated

end Catalog
end Muster
