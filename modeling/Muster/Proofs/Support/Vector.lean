import Muster.Proofs.Double.Arithmetic
import Muster.Proofs.Taxonomy
import Muster.Support.Pool

/-!
Support vectors by their labels. A vector whose labels are all different gives each label the units
that it was built with. `unitsFor` is what models need or offer of one label; it does not depend on
the other labels, and in a transitive taxonomy a class has at least the units of its subclasses.

Main statements: `ofPairs_map`, `joinedBounds_ne_empty`, `ofModels_eq`, `unitsFor_mono`.
-/

namespace Muster

open Std

/-! ### Vectors with different labels -/

namespace SupportVector

/-- The vector that gives each label its units. -/
def tabulate (labels : List Model) (g : Model → Double) : SupportVector :=
  ⟨labels.map fun l => (l, g l)⟩

section Tabulate

variable {labels : List Model} {g : Model → Double} {l : Model}

@[simp] theorem labels_tabulate : (tabulate labels g).labels = labels := by
  simp [tabulate, SupportVector.labels, Function.comp_def]

theorem tabulate_congr {h : Model → Double} (heq : ∀ l ∈ labels, g l = h l) :
    tabulate labels g = tabulate labels h := by
  rw [tabulate, tabulate]
  exact congrArg SupportVector.mk (List.map_congr_left fun l hl => by rw [heq l hl])

theorem get_tabulate (hl : l ∈ labels) : (tabulate labels g).get l = g l := by
  induction labels with
  | nil => exact absurd hl List.not_mem_nil
  | cons k rest ih =>
    by_cases hk : k = l
    · simp [tabulate, get, hk]
    · have hrest : l ∈ rest := (List.mem_cons.1 hl).resolve_left (Ne.symm hk)
      have hget : (tabulate (k :: rest) g).get l = (tabulate rest g).get l := by
        simp [tabulate, get, hk]
      rw [hget, ih hrest]

theorem addTo_of_not_mem {x : Double} {es : List (Model × Double)} (h : l ∉ es.map Prod.fst) :
    addTo l x es = es ++ [(l, x)] := by
  induction es with
  | nil => rfl
  | cons e rest ih =>
    rw [List.map_cons, List.mem_cons, not_or] at h
    rw [addTo, if_neg (Ne.symm h.1), ih h.2, List.cons_append]

theorem foldl_addTo : ∀ {pairs es : List (Model × Double)},
    ((es ++ pairs).map Prod.fst).Nodup →
    pairs.foldl (fun es e => addTo e.1 e.2 es) es = es ++ pairs
  | [], es, _ => (List.append_nil es).symm
  | e :: rest, es, h => by
    have hnot : e.1 ∉ es.map Prod.fst := by
      rw [List.map_append, List.nodup_append] at h
      intro hmem
      exact h.2.2 _ hmem _ List.mem_cons_self rfl
    rw [List.foldl_cons, addTo_of_not_mem hnot]
    have hassoc : es ++ e :: rest = es ++ [e] ++ rest := by simp
    rw [hassoc] at h ⊢
    exact foldl_addTo h

/-- Units of different labels are kept as they are. -/
theorem ofPairs_map (h : labels.Nodup) :
    ofPairs (labels.map fun l => (l, g l)) = tabulate labels g := by
  have hnodup : (([] ++ labels.map fun l => (l, g l)).map Prod.fst).Nodup := by
    simpa [Function.comp_def] using h
  rw [ofPairs, foldl_addTo hnodup]
  rfl

theorem zeros_eq (h : labels.Nodup) : zeros labels = tabulate labels fun _ => 0 := ofPairs_map h

theorem accumulate_tabulate (w : SupportVector) (factor : Double) :
    (tabulate labels g).accumulate w factor = tabulate labels fun l => g l + w.get l * factor := by
  simp [tabulate, accumulate, mapUnits]

end Tabulate

/-! ### What models need and offer -/

section Models

variable {o : Ontology} {models labels : List Model} {offered : Bool} {k l q : Model}

/-- What models need of a label, or offer of it. -/
def unitsFor (o : Ontology) (models : List Model) (offered : Bool) (l : Model) : Nat :=
  match joinedBounds o models with
  | none => models.countP fun m => o.isSameOrSubclassOf m l
  | some bounds => sumOf ((bounds.entries.filter fun e => o.isSameOrSubclassOf e.1 l).map
      fun e => (e.2.pick offered).toNat)

/-- The labels of models that are asked for all they have. -/
def ownLabels (o : Ontology) (models : List Model) : List Model :=
  match joinedBounds o models with
  | none => (OrderedSet.ofList models).toList
  | some bounds => bounds.keys.toList

theorem mem_keys_tabulate {β : Type} {keys : OrderedSet Model} {f : Model → β} :
    q ∈ (OrderedMap.tabulate keys fun k => some (f k)).keys ↔ q ∈ keys := by
  rw [OrderedMap.mem_keys, OrderedMap.get?_tabulate]
  split <;> simp [*]

theorem mem_keys_ofRestrictions {rs : List CardinalityRestriction} :
    q ∈ (BoundMap.ofRestrictions rs).keys ↔ q ∈ rs.map (·.qualification) := by
  rw [BoundMap.ofRestrictions, mem_keys_tabulate, OrderedSet.mem_ofList]

theorem mem_keys_foldl_join : ∀ {rss : List (List CardinalityRestriction)} {b : BoundMap},
    q ∈ (rss.foldl (fun b rs => b.join .max (.ofRestrictions rs)) b).keys ↔
      q ∈ b.keys ∨ ∃ rs ∈ rss, q ∈ rs.map (·.qualification)
  | [], b => by simp
  | rs :: rss, b => by
    rw [List.foldl_cons, mem_keys_foldl_join, BoundMap.join, mem_keys_tabulate,
      OrderedSet.mem_union, mem_keys_ofRestrictions, List.exists_mem_cons_iff, or_assoc]

/-- Models with restrictions have intervals. -/
theorem joinedBounds_ne_empty {bounds : BoundMap} (h : joinedBounds o models = some bounds) :
    bounds.isEmpty = false := by
  rw [joinedBounds] at h
  split at h
  · exact absurd h (by simp)
  · rename_i hsome
    obtain rfl := Option.some.inj h
    obtain ⟨rs, hrs⟩ := List.exists_mem_of_ne_nil _ (mt List.isEmpty_iff.2 hsome)
    have hne : rs ≠ [] := by
      have := (List.mem_filter.1 hrs).2
      intro h
      simp [h] at this
    obtain ⟨r, hr⟩ := List.exists_mem_of_ne_nil rs hne
    have hkey := mem_keys_foldl_join.2 (.inr ⟨rs, hrs, List.mem_map_of_mem hr⟩ :
      r.qualification ∈ (OrderedMap.empty : BoundMap).keys ∨ _)
    rw [OrderedMap.isEmpty, List.isEmpty_eq_false_iff]
    intro hnil
    obtain ⟨e, he, -⟩ := List.mem_map.1 hkey
    rw [hnil] at he
    exact List.not_mem_nil he

theorem nodup_ownLabels (o : Ontology) (models : List Model) : (ownLabels o models).Nodup := by
  rw [ownLabels]
  split <;> exact OrderedSet.nodup _

theorem ownLabels_ne_nil (h : models ≠ []) : ownLabels o models ≠ [] := by
  rw [ownLabels]
  split
  · obtain ⟨m, hm⟩ := List.exists_mem_of_ne_nil models h
    exact List.ne_nil_of_mem (OrderedSet.mem_ofList.2 hm)
  · rename_i bounds hbounds
    have := joinedBounds_ne_empty hbounds
    rw [OrderedMap.isEmpty, List.isEmpty_eq_false_iff] at this
    simpa [OrderedMap.keys] using this

/-- The needs or offers of models over different labels. -/
theorem ofModels_eq (hnodup : labels.Nodup) : ofModels o models labels offered = .ok (tabulate
    (if labels.isEmpty then ownLabels o models else labels)
    fun l => .ofNat (unitsFor o models offered l)) := by
  have hlabels : (if labels.isEmpty then ownLabels o models else labels).Nodup := by
    split
    · exact nodup_ownLabels o models
    · exact hnodup
  rw [← ofPairs_map hlabels, ofModels]
  simp only [unitsFor, ownLabels]
  cases h : joinedBounds o models with
  | none => rfl
  | some bounds => simp [joinedBounds_ne_empty h]

/-- What covers a class covers its superclasses. -/
theorem unitsFor_mono (ho : o.IsTransitive) (h : o.isSameOrSubclassOf k l = true) :
    unitsFor o models offered k ≤ unitsFor o models offered l := by
  rw [unitsFor, unitsFor]
  split
  · exact List.countP_mono_left fun m _ hm => ho hm h
  · rename_i bounds _
    induction bounds.entries with
    | nil => exact Nat.le_refl _
    | cons e rest ih =>
      rw [List.filter_cons, List.filter_cons]
      by_cases hk : o.isSameOrSubclassOf e.1 k = true
      · rw [if_pos hk, if_pos (ho hk h)]
        exact Nat.add_le_add_left ih _
      · rw [if_neg hk]
        split
        · exact ih.trans (Nat.le_add_left ..)
        · exact ih

end Models

end SupportVector
end Muster
