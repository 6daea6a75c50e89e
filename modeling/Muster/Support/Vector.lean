import Muster.Ontology
import Muster.Double.Text
import Muster.Vocabulary

/-!
What models need and what they offer, as vectors: a number of units for each class. A need is
counted at the lower ends of the restrictions, an offer at the upper ends; `supportFrom` compares
the two, and the largest of the `ratios` says how many providers it takes to meet a need.
-/

namespace Muster

open Std

/-- How well a need is served. -/
inductive SupportType where
  /-- Nothing that is needed is offered. -/
  | noSupport
  /-- Something needed is offered, but not all of it. -/
  | partialSupport
  /-- Everything needed is offered. -/
  | fullSupport
deriving DecidableEq, Inhabited

namespace SupportType

/-- The place of an answer from worst to best. -/
def rank : SupportType → Nat
  | noSupport => 0
  | partialSupport => 1
  | fullSupport => 2

instance : Ord SupportType := ⟨compareOn rank⟩

/-- The name of an answer. -/
def text : SupportType → String
  | noSupport => "NoSupport"
  | partialSupport => "PartialSupport"
  | fullSupport => "FullSupport"

end SupportType

/-- A number of units for each of some labels. -/
structure SupportVector where
  entries : List (Model × Double)
deriving DecidableEq, Inhabited

namespace SupportVector

/-- Adds `x` to the first entry of `label`, or makes one at the end. -/
def addTo (label : Model) (x : Double) : List (Model × Double) → List (Model × Double)
  | [] => [(label, x)]
  | e :: rest => if e.1 = label then (e.1, e.2 + x) :: rest else e :: addTo label x rest

/-- Collects units; those of a repeated label add up. -/
def ofPairs (pairs : List (Model × Double)) : SupportVector :=
  ⟨pairs.foldl (fun es e => addTo e.1 e.2 es) []⟩

/-- No units for each label. -/
def zeros (labels : List Model) : SupportVector := ofPairs (labels.map fun l => (l, 0))

/-- The labels, in order. -/
def labels (v : SupportVector) : List Model := v.entries.map Prod.fst

/-- The number of labels. -/
def length (v : SupportVector) : Nat := v.entries.length

/-- Whether there is no label. -/
def isEmpty (v : SupportVector) : Bool := v.entries.isEmpty

/-- Whether no label has a unit. -/
def isNull (v : SupportVector) : Bool := v.entries.all fun e => e.2.same 0

/-- The units of a label, none if it is missing. -/
def get (v : SupportVector) (label : Model) : Double :=
  ((v.entries.find? fun e => e.1 == label).map Prod.snd).getD 0

/-- The units of the given labels. -/
def aligned (v : SupportVector) (labels : List Model) : SupportVector :=
  ⟨labels.map fun l => (l, v.get l)⟩

/-- Changes the units of each label. -/
def mapUnits (f : Model → Double → Double) (v : SupportVector) : SupportVector :=
  ⟨v.entries.map fun e => (e.1, f e.1 e.2)⟩

/-- Adds `factor` times the units of `w` to the labels of `v`. -/
def accumulate (v w : SupportVector) (factor : Double) : SupportVector :=
  v.mapUnits fun l x => x + w.get l * factor

/-- All units times `factor`. -/
def scaled (v : SupportVector) (factor : Double) : SupportVector :=
  v.mapUnits fun _ x => x * factor

/-- How well `offer` serves the need `v`; labels that need nothing do not count. -/
def supportFrom (v offer : SupportVector) : SupportType :=
  let needed := v.entries.filter fun e => !decide (e.2 ≤ 0)
  if needed.all fun e => !decide (offer.get e.1 < e.2) then .fullSupport
  else if needed.any fun e => decide (0 < offer.get e.1) then .partialSupport
  else .noSupport

/-- A need divided by an offer. Nothing divided by nothing is nothing; anything else has no ratio
to nothing. -/
def ratio (required offered : Double) : Double :=
  if offered.same 0 then
    if required.same 0 then 0 else .nan
  else required / offered

/-- The need `v` divided by the offer, label by label. -/
def ratios (v offer : SupportVector) : SupportVector :=
  v.mapUnits fun l x => ratio x (offer.get l)

/-- The largest finite number of units. -/
def maxFinite? (v : SupportVector) : Option Double :=
  reduce? Double.max ((v.entries.map Prod.snd).filter Double.isFinite)

/-- Adds to each label the units of the labels that are its strict subclasses. -/
def embedClasses (o : Ontology) (v : SupportVector) : SupportVector :=
  ⟨v.entries.zipIdx.map fun (e, i) =>
    (e.1, v.entries.zipIdx.foldl (fun sum (f, j) =>
      if i != j && o.isSubclassOf f.1 e.1 then sum + f.2 else sum) e.2)⟩

/-- The text of a vector. -/
def text (v : SupportVector) : String :=
  "[" ++ ", ".intercalate (v.entries.map fun e => e.1.fragment ++ ": " ++ e.2.text) ++ "]"

/-- The intervals that models own together, each class at the largest of them; `none` if no model
is restricted. -/
def joinedBounds (o : Ontology) (models : List Model) : Option BoundMap :=
  let restricted := (models.map fun m => o.restrictions m Vocabulary.has).filter (!·.isEmpty)
  if restricted.isEmpty then none
  else some (restricted.foldl (fun b rs => b.join .max (.ofRestrictions rs)) .empty)

/-- The needs of models, or with `offered` their offers, over the labels of `filter` if there are
any. A label counts the units of every class that it covers. Models without restrictions stand for
themselves, one unit each. -/
def ofModels (o : Ontology) (models filter : List Model) (offered : Bool) :
    Except ModelError SupportVector :=
  match joinedBounds o models with
  | none =>
    let labels := if filter.isEmpty then (OrderedSet.ofList models).toList else filter
    .ok (ofPairs (labels.map fun l =>
      (l, Double.ofNat (models.countP fun m => o.isSameOrSubclassOf m l))))
  | some bounds =>
    if bounds.isEmpty then
      .error (.invalidArgument ("no cardinality bounds for models " ++ Model.listText models))
    else
      let labels := if filter.isEmpty then bounds.keys.toList else filter
      let unitsOf := fun l =>
        sumOf ((bounds.entries.filter fun e => o.isSameOrSubclassOf e.1 l).map
          fun e => (e.2.pick offered).toNat)
      .ok (ofPairs (labels.map fun l => (l, Double.ofNat (unitsOf l))))

end SupportVector
end Muster
