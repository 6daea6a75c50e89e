import Muster.Functionality.Mapping
import Muster.Pool.Algebra
import Muster.Proofs.Taxonomy
import Mathlib.Data.Finset.Card
import Mathlib.Logic.Relation

/-!
The two directions of a mapping. A mapping keeps its pools by functionality and its functionalities
by pool. Whatever notes are made and numbers counted, the two directions say the same. Either of
them, the supported functionalities and the number of pools can be told from the notes that were
made (`Records`), however often a pool was noted and in whatever form.

Main statements: `mem_poolsOf_add`, `mem_functionalitiesOf_add`, `IsMutual.grows`, `Records.add`,
`records_after`.
-/

namespace Muster
namespace FunctionalityMapping

variable {m n : FunctionalityMapping} {p q : Pool} {f g : Model}

theorem mem_poolsOf_add :
    q ∈ (m.add p f).poolsOf g ↔ q ∈ m.poolsOf g ∨ q = p.normalized ∧ g = f := by
  have hget : (m.add p f).poolsOf g =
      if g = f then (m.poolsOf f).insert p.normalized else m.poolsOf g := by
    rw [poolsOf, add, OrderedMap.get?_insert]
    split <;> rfl
  rw [hget]
  split
  · rename_i heq
    rw [OrderedSet.mem_insert, heq, or_comm]
    simp
  · rename_i hne
    simp [hne]

theorem mem_functionalitiesOf_add : g ∈ (m.add p f).functionalitiesOf q ↔
    g ∈ m.functionalitiesOf q ∨ q.normalized = p.normalized ∧ g = f := by
  have hget : (m.add p f).functionalitiesOf q =
      if q.normalized = p.normalized then (m.functionalitiesOf p).insert f
      else m.functionalitiesOf q := by
    rw [functionalitiesOf, add, OrderedMap.get?_insert]
    split <;> rfl
  rw [hget]
  split
  · rename_i heq
    rw [OrderedSet.mem_insert, functionalitiesOf, functionalitiesOf, heq, or_comm]
    simp
  · rename_i hne
    simp [hne]

/-- A single change: a pool is noted for a functionality, or the counters change. -/
inductive Change (m : FunctionalityMapping) : FunctionalityMapping → Prop
  | add (p : Pool) (f : Model) : Change m (m.add p f)
  | tallied (k : SearchStatistics → SearchStatistics) : Change m (m.tallied k)

/-- What a mapping becomes by any number of changes. -/
def Grows : FunctionalityMapping → FunctionalityMapping → Prop := Relation.ReflTransGen Change

/-- A pool is listed for just the functionalities that it is listed under. -/
def IsMutual (m : FunctionalityMapping) : Prop :=
  ∀ p f, f ∈ m.functionalitiesOf p ↔ p.normalized ∈ m.poolsOf f

theorem IsMutual.change (h : m.IsMutual) (hchange : Change m n) : n.IsMutual := by
  cases hchange with
  | add p f =>
    intro q g
    rw [mem_functionalitiesOf_add, mem_poolsOf_add, h q g]
  | tallied k => exact h

/-- The two directions stay in step. -/
theorem IsMutual.grows (h : m.IsMutual) (hgrows : m.Grows n) : n.IsMutual := by
  induction hgrows with
  | refl => exact h
  | tail _ hchange ih => exact ih.change hchange

/-! ### What is noted -/

theorem mem_supported_add : g ∈ (m.add p f).supported ↔ g ∈ m.supported ∨ g = f := by
  rw [add, OrderedSet.mem_insert, or_comm]

theorem mem_byPool_add :
    q ∈ (m.add p f).byPool.keys ↔ q ∈ m.byPool.keys ∨ q = p.normalized := by
  rw [OrderedMap.mem_keys, add, OrderedMap.get?_insert, OrderedMap.mem_keys]
  split
  · rename_i heq
    simp [heq]
  · rename_i hne
    simp [hne]

/-- However it is read, the mapping holds the pools and functionalities of some notes, each pool
normalized, and no others. -/
structure Records (notes : List (Pool × Model)) (m : FunctionalityMapping) : Prop where
  mem_poolsOf (p : Pool) (f : Model) : p ∈ m.poolsOf f ↔ ∃ q, (q, f) ∈ notes ∧ q.normalized = p
  mem_functionalitiesOf (p : Pool) (f : Model) :
    f ∈ m.functionalitiesOf p ↔ ∃ q, (q, f) ∈ notes ∧ q.normalized = p.normalized
  mem_supported (f : Model) : f ∈ m.supported ↔ ∃ q, (q, f) ∈ notes
  mem_byPool (p : Pool) : p ∈ m.byPool.keys ↔ ∃ q f, (q, f) ∈ notes ∧ q.normalized = p

section Records

variable {notes : List (Pool × Model)}

theorem records_nil (pool : Pool) (fs : List Model) (bound : Pool) :
    Records [] { pool, functionalities := fs, bound } := by
  refine ⟨?_, ?_, ?_, ?_⟩ <;> intros <;> simp [poolsOf, functionalitiesOf, OrderedMap.mem_keys]

/-- A note adds what it says in each direction. -/
theorem Records.add (h : Records notes m) (p : Pool) (f : Model) :
    Records (notes ++ [(p, f)]) (m.add p f) where
  mem_poolsOf q g := by
    rw [mem_poolsOf_add, h.mem_poolsOf]
    simp [or_and_right, exists_or, eq_comm, and_comm]
  mem_functionalitiesOf q g := by
    rw [mem_functionalitiesOf_add, h.mem_functionalitiesOf]
    simp [or_and_right, exists_or, eq_comm, and_comm]
  mem_supported g := by
    rw [mem_supported_add, h.mem_supported]
    simp [exists_or]
  mem_byPool q := by
    rw [mem_byPool_add, h.mem_byPool]
    simp [or_and_right, exists_or, eq_comm]

theorem Records.addAll (h : Records notes m) (p : Pool) (fs : List Model) :
    Records (notes ++ fs.map fun f => (p, f)) (m.addAll p fs) := by
  induction fs generalizing notes m with
  | nil => simpa [FunctionalityMapping.addAll] using h
  | cons f rest ih => simpa [FunctionalityMapping.addAll] using ih (h.add p f)

theorem Records.poolCount_eq (h : Records notes m) :
    m.poolCount = (notes.map fun n => n.1.normalized).toFinset.card := by
  have hkeys : m.poolCount = m.byPool.keys.toList.length := (List.length_map _).symm
  rw [hkeys, ← List.toFinset_card_of_nodup m.byPool.keys.nodup]
  refine congrArg Finset.card (Finset.ext fun p => ?_)
  rw [List.mem_toFinset, ← OrderedSet.mem_def, h.mem_byPool]
  simp

theorem Records.isEmpty_iff (h : Records notes m) : m.isEmpty = true ↔ notes = [] := by
  rw [isEmpty, OrderedSet.isEmpty_iff, List.eq_nil_iff_forall_not_mem]
  simp only [h.mem_supported, not_exists, Prod.forall]
  exact forall_comm

end Records

/-- A call that makes notes. -/
inductive NoteCall where
  | add (p : Pool) (f : Model)
  | addAll (p : Pool) (fs : List Model)

namespace NoteCall

/-- The mapping after a call. -/
def perform (m : FunctionalityMapping) : NoteCall → FunctionalityMapping
  | add p f => m.add p f
  | addAll p fs => m.addAll p fs

/-- The notes of a call: a pool and a functionality each. -/
def notes : NoteCall → List (Pool × Model)
  | add p f => [(p, f)]
  | addAll p fs => fs.map fun f => (p, f)

end NoteCall

/-- The mapping after some calls. -/
def after (m : FunctionalityMapping) (calls : List NoteCall) : FunctionalityMapping :=
  calls.foldl NoteCall.perform m

theorem Records.after {notes : List (Pool × Model)} (h : Records notes m) (calls : List NoteCall) :
    Records (notes ++ calls.flatMap NoteCall.notes) (m.after calls) := by
  induction calls generalizing notes m with
  | nil => simpa [FunctionalityMapping.after] using h
  | cons c rest ih =>
    have hcall : Records (notes ++ c.notes) (c.perform m) := by
      cases c with
      | add p f => exact h.add p f
      | addAll p fs => exact h.addAll p fs
    rw [List.flatMap_cons, ← List.append_assoc]
    exact ih hcall

/-- After any calls on a new mapping, with pools in whatever form and noted however often, both
directions hold what was noted and say the same. The pools are stored normalized, a functionality is
supported just if it has a pool, the number of pools is that of the different normalized ones that
were noted, and the mapping is empty just if no note was made. -/
theorem records_after (pool : Pool) (fs : List Model) (bound : Pool) (calls : List NoteCall) :
    let m := after { pool, functionalities := fs, bound } calls
    let notes := calls.flatMap NoteCall.notes
    (∀ p f, (p.normalized ∈ m.poolsOf f ↔ f ∈ m.functionalitiesOf p) ∧
      (p ∈ m.poolsOf f ↔ ∃ q, (q, f) ∈ notes ∧ q.normalized = p)) ∧
    (∀ f, ∀ p ∈ m.poolsOf f, p.IsNormal) ∧ (∀ p ∈ m.byPool.keys, p.IsNormal) ∧
    (∀ f, (f ∈ m.supported ↔ (m.poolsOf f).isEmpty = false) ∧
      (m.isSupported f = true ↔ f ∈ m.supported)) ∧
    m.poolCount = (notes.map fun n => n.1.normalized).toFinset.card ∧
    (m.isEmpty = true ↔ notes = []) := by
  intro m notes
  have h : Records notes m := (records_nil pool fs bound).after calls
  refine ⟨fun p f => ⟨?_, h.mem_poolsOf p f⟩, fun f p hp => ?_, fun p hp => ?_, fun f => ⟨?_, ?_⟩,
    h.poolCount_eq, h.isEmpty_iff⟩
  · rw [h.mem_poolsOf, h.mem_functionalitiesOf]
  · obtain ⟨q, -, rfl⟩ := (h.mem_poolsOf p f).1 hp
    exact Pool.isNormal_normalized q
  · obtain ⟨q, -, -, rfl⟩ := (h.mem_byPool p).1 hp
    exact Pool.isNormal_normalized q
  · rw [← Bool.not_eq_true, OrderedSet.isEmpty_iff, h.mem_supported]
    simp [h.mem_poolsOf]
  · rw [isSupported, decide_eq_true_iff]

end FunctionalityMapping
end Muster
