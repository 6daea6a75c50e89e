import Muster.Catalog
import Muster.Pool.Atoms
import Muster.Proofs.Wiring.Draft
import Muster.Proofs.Wiring.Ranks
import Muster.Proofs.Wiring.Search
import Muster.Wiring.Feasibility

/-!
Wiring the atoms of a pool. A socket is an interface of an atom, told apart by the atom, the type
and a number below the greatest number of interfaces of that type that the model may have. The
endpoints of the problem drawn from a pool are its sockets, and atoms of one model have the same
sockets, so the search answers whether the sockets can be wired in pairs that link all atoms.

Main statements: `names_draftOf`, `isUniform_draftOf`, `isConnectedWiring_map`,
`exists_isConnectedWiring`, `wire_decides`.
-/

namespace Muster

open Relation (EqvGen)

/-- An interface of an atom of a pool. -/
structure Socket where
  atom : Nat
  type : Model
  number : Nat
deriving DecidableEq

namespace Pool

/-- The atoms of a pool. -/
def atoms (pool : Pool) : List Model := AtomList.expand pool.entries

/-- The sockets of a pool: for every bound on what the model of an atom has, whose class is the base
class or a subclass of it, as many as the bound allows at most. -/
def HasSocket (pool : Pool) (o : Ontology) (base : Model) (s : Socket) : Prop :=
  ∃ m b, pool.atoms[s.atom]? = some m ∧
    (BoundMap.ofRestrictions (o.restrictions m Vocabulary.has)).get? s.type = some b ∧
    o.isSameOrSubclassOf s.type base ∧ s.number < b.max.toNat

/-- Pairs of sockets of different atoms whose types are stated to be compatible, in either
direction, no socket used twice, that link all atoms. -/
structure IsConnectedWiring (pool : Pool) (o : Ontology) (base : Model)
    (wires : List (Socket × Socket)) : Prop where
  hasSocket : ∀ s ∈ endsOf wires, pool.HasSocket o base s
  disjoint : (endsOf wires).Nodup
  joins : ∀ q ∈ wires, q.1.atom ≠ q.2.atom ∧
    (o.isRelated q.1.type Vocabulary.compatibleWith q.2.type ∨
      o.isRelated q.2.type Vocabulary.compatibleWith q.1.type)
  connected : ∀ i < pool.atoms.length, ∀ j < pool.atoms.length,
    EqvGen (fun a b => ∃ q ∈ wires, q.1.atom = a ∧ q.2.atom = b) i j

end Pool

namespace WiringProblem

/-! ### The endpoints of an atom -/

/-- The types of the endpoints of an atom, in order. -/
def typesOf (o : Ontology) (base m : Model) : List Model :=
  (interfacesOf o base m).flatMap fun (q, n) => List.replicate n q

theorem count_flatMap_replicate : ∀ {es : List (Model × Nat)},
    es.Pairwise (fun e f => compare e.1 f.1 = .lt) → ∀ {t : Model} {k : Nat},
    k < (es.flatMap fun (q, n) => List.replicate n q).count t ↔ ∃ n, (t, n) ∈ es ∧ k < n
  | [], _, t, k => by simp
  | (q, n) :: es, h, t, k => by
    obtain ⟨hq, hes⟩ := List.pairwise_cons.1 h
    have ih := count_flatMap_replicate hes (t := t) (k := k)
    rw [List.flatMap_cons, List.count_append, List.count_replicate]
    by_cases hqt : q = t
    · subst hqt
      have hout : ∀ n', (q, n') ∉ es := fun n' hmem => by simpa using hq _ hmem
      have hzero : (es.flatMap fun (q, n) => List.replicate n q).count q = 0 := by
        refine Nat.eq_zero_of_not_pos fun hpos => ?_
        obtain ⟨n', hmem, -⟩ := (count_flatMap_replicate hes (t := q) (k := 0)).1 hpos
        exact hout n' hmem
      rw [if_pos (beq_self_eq_true q), hzero, Nat.add_zero]
      constructor
      · exact fun hk => ⟨n, List.mem_cons_self, hk⟩
      · rintro ⟨n', hmem, hk⟩
        rcases List.mem_cons.1 hmem with heq | hmem
        · cases heq
          exact hk
        · exact absurd hmem (hout n')
    · rw [if_neg (by simpa using hqt), Nat.zero_add, ih]
      constructor
      · exact fun ⟨n', hmem, hk⟩ => ⟨n', List.mem_cons_of_mem _ hmem, hk⟩
      · rintro ⟨n', hmem, hk⟩
        rcases List.mem_cons.1 hmem with heq | hmem
        · cases heq
          exact absurd rfl hqt
        · exact ⟨n', hmem, hk⟩

theorem mem_interfacesOf {o : Ontology} {base m q : Model} {n : Nat} :
    (q, n) ∈ interfacesOf o base m ↔ ∃ b, (BoundMap.ofRestrictions
      (o.restrictions m Vocabulary.has)).get? q = some b ∧ b.max ≠ 0 ∧
      o.isSameOrSubclassOf q base ∧ n = b.max.toNat := by
  simp only [interfacesOf, List.mem_filterMap, Prod.exists]
  constructor
  · rintro ⟨q', b, hmem, hsome⟩
    split at hsome
    · rename_i h
      cases hsome
      exact ⟨b, OrderedMap.get?_eq_some_iff.2 hmem, h.1, h.2, rfl⟩
    · cases hsome
  · rintro ⟨b, hget, hne, hsub, rfl⟩
    exact ⟨q, b, OrderedMap.get?_eq_some_iff.1 hget, if_pos ⟨hne, hsub⟩⟩

theorem pairwise_interfacesOf (o : Ontology) (base m : Model) :
    (interfacesOf o base m).Pairwise fun e f => compare e.1 f.1 = .lt := by
  refine List.Pairwise.filterMap _ (fun e f hef e' he f' hf => ?_)
    (BoundMap.ofRestrictions (o.restrictions m Vocabulary.has)).ascending
  obtain ⟨q, b⟩ := e
  obtain ⟨q', b'⟩ := f
  simp only [Option.ite_none_right_eq_some, Option.some.injEq] at he hf
  obtain ⟨-, rfl⟩ := he
  obtain ⟨-, rfl⟩ := hf
  exact hef

/-- An atom has an endpoint of a type and a number just if it has such a socket. -/
theorem lt_count_typesOf {o : Ontology} {base m t : Model} {k : Nat} :
    k < (typesOf o base m).count t ↔ ∃ b, (BoundMap.ofRestrictions
      (o.restrictions m Vocabulary.has)).get? t = some b ∧ o.isSameOrSubclassOf t base ∧
      k < b.max.toNat := by
  rw [typesOf, count_flatMap_replicate (pairwise_interfacesOf o base m)]
  simp only [mem_interfacesOf]
  constructor
  · rintro ⟨n, ⟨b, hget, -, hsub, rfl⟩, hk⟩
    exact ⟨b, hget, hsub, hk⟩
  · rintro ⟨b, hget, hsub, hk⟩
    refine ⟨_, ⟨b, hget, ?_, hsub, rfl⟩, hk⟩
    rintro hzero
    rw [hzero] at hk
    simp at hk

/-- The endpoints of atoms that are numbered from `k` on. -/
def endsFrom (o : Ontology) (base : Model) : Nat → List Model → List (Nat × Model)
  | _, [] => []
  | k, m :: ms => (typesOf o base m).map (k, ·) ++ endsFrom o base (k + 1) ms

theorem count_map_pair (i k : Nat) (t : Model) (ts : List Model) :
    (ts.map (k, ·)).count (i, t) = if i = k then ts.count t else 0 := by
  rw [List.count_eq_countP, List.countP_map]
  by_cases hik : i = k
  · rw [if_pos hik, List.count_eq_countP]
    exact List.countP_congr fun x _ => by simp [hik]
  · rw [if_neg hik, List.countP_eq_zero]
    exact fun x _ => by simp [Ne.symm hik]

theorem count_endsFrom (o : Ontology) (base : Model) (i : Nat) (t : Model) : ∀ (ms : List Model)
    (k : Nat), (endsFrom o base k ms).count (i, t) =
      if k ≤ i then (ms[i - k]?.map fun m => (typesOf o base m).count t).getD 0 else 0
  | [], k => by simp [endsFrom]
  | m :: ms, k => by
    rw [endsFrom, List.count_append, count_map_pair, count_endsFrom o base i t ms (k + 1)]
    rcases Nat.lt_trichotomy i k with hlt | rfl | hlt
    · rw [if_neg (by omega), if_neg (by omega), if_neg (by omega)]
    · rw [if_pos rfl, if_neg (by omega), if_pos (Nat.le_refl _), Nat.sub_self, Nat.add_zero]
      rfl
    · rw [if_neg (by omega), if_pos (Nat.succ_le_of_lt hlt), if_pos hlt.le, Nat.zero_add]
      obtain ⟨j, hj⟩ : ∃ j, i - k = j + 1 := ⟨i - k - 1, by omega⟩
      rw [hj, show i - (k + 1) = j by omega, List.getElem?_cons_succ]

/-! ### The problem of a pool -/

open WiringDraft

theorem names_addEndpoints {ms : List Model} {k : Nat} (hk : k < ms.length) :
    ∀ (types : List Model) {d : WiringDraft} {es : List (Nat × Model)}, d.Names ms es →
    (types.foldl (fun d q => (d.addEndpoint k q).toOption.getD d) d).Names ms
      (es ++ types.map (k, ·)) ∧
    (types.foldl (fun d q => (d.addEndpoint k q).toOption.getD d) d).compatible = d.compatible
  | [], _, _, h => by
    rw [List.map_nil, List.append_nil]
    exact ⟨h, rfl⟩
  | q :: types, d, es, h => by
    have hk' : k < d.instanceModels.size := by
      rwa [← Array.length_toList, h.models.length_eq]
    obtain ⟨d', hd', hcompatible⟩ : ∃ d', d.addEndpoint k q = .ok d' ∧
        d'.compatible = d.compatible := ⟨_, if_pos hk', rfl⟩
    have ih := names_addEndpoints hk types (h.addEndpoint hd')
    rw [List.append_assoc, hcompatible] at ih
    rw [List.foldl_cons, hd']
    exact ih

theorem names_addAtoms (o : Ontology) (base : Model) : ∀ (atoms : List Model) {d : WiringDraft}
    {ms : List Model} {es : List (Nat × Model)}, d.Names ms es →
    (atoms.foldl (fun d m => addAtom (interfacesOf o base m) m d) d).Names (ms ++ atoms)
      (es ++ endsFrom o base ms.length atoms) ∧
    (atoms.foldl (fun d m => addAtom (interfacesOf o base m) m d) d).compatible = d.compatible
  | [], _, _, _, h => by
    rw [endsFrom, List.append_nil, List.append_nil]
    exact ⟨h, rfl⟩
  | m :: atoms, d, ms, es, h => by
    have howner : d.instanceModels.size = ms.length := by
      rw [← Array.length_toList, h.models.length_eq]
    have hatom : addAtom (interfacesOf o base m) m d = (typesOf o base m).foldl
        (fun d q => (d.addEndpoint ms.length q).toOption.getD d) (d.addInstance m) := by
      rw [addAtom, howner]
      rfl
    obtain ⟨hnames, hcompatible⟩ := names_addEndpoints (k := ms.length) (by simp)
      (typesOf o base m) (h.addInstance m)
    have ih := names_addAtoms o base atoms hnames
    rw [hcompatible, List.append_assoc, List.append_assoc, List.length_append] at ih
    rw [List.foldl_cons, hatom, endsFrom]
    exact ih

theorem foldl_flatMap_replicate {β : Type} (f : β → Model → β) : ∀ (es : List (Model × UInt32))
    (b : β), es.foldl (fun b e => (List.replicate e.2.toNat e.1).foldl f b) b =
      (AtomList.expand es).foldl f b
  | [], _ => rfl
  | e :: es, b => by
    rw [List.foldl_cons, foldl_flatMap_replicate f es, AtomList.expand, AtomList.expand,
      List.flatMap_cons, List.foldl_append]

theorem addPool_eq (o : Ontology) (base : Model) (pool : Pool) (d : WiringDraft) :
    addPool o base pool d =
      pool.atoms.foldl (fun d m => addAtom (interfacesOf o base m) m d) d := by
  rw [Pool.atoms, ← foldl_flatMap_replicate, addPool]
  refine List.foldl_ext _ _ _ fun d e _ => List.foldl_ext _ _ _ fun d m hm => ?_
  rw [List.eq_of_mem_replicate hm]

/-- The draft of the problem of a pool. -/
def draftOf (o : Ontology) (pool : Pool) (base : Model) : WiringDraft :=
  addStated o (addPool o base pool {})

section Pool

variable (o : Ontology) (pool : Pool) (base : Model)

/-- The problem of a pool has the atoms and their endpoints. -/
theorem names_draftOf : (draftOf o pool base).Names pool.atoms (endsFrom o base 0 pool.atoms) := by
  obtain ⟨h, -⟩ := names_addAtoms o base pool.atoms names_empty
  rw [← addPool_eq] at h
  exact ⟨h.nodup_models, h.nodup_types, h.models, h.ends, h.owner_lt⟩

theorem mem_zipIdx_types {d : WiringDraft} {a : Model} {i : Nat} :
    (a, i) ∈ d.types.toList.zipIdx ↔ d.types[i]? = some a := by
  rw [List.mem_zipIdx_iff_getElem?, Array.getElem?_toList]

/-- Types fit together just if they are stated to be compatible. -/
theorem isCompatible_ofPool {s t : Nat} {a b : Model}
    (hs : (draftOf o pool base).types[s]? = some a)
    (ht : (draftOf o pool base).types[t]? = some b) :
    (draftOf o pool base).build.isCompatible s t ↔ statedCompatible o a b := by
  obtain ⟨-, hnone⟩ := names_addAtoms o base pool.atoms names_empty
  rw [← addPool_eq] at hnone
  have hcompatible : (draftOf o pool base).compatible = _ ++ [] := congrArg (_ ++ ·) hnone
  have hpair : ∀ {s t a b}, (draftOf o pool base).types[s]? = some a →
      (draftOf o pool base).types[t]? = some b →
      ((s, t) ∈ (draftOf o pool base).compatible ↔ s ≤ t ∧ statedCompatible o a b) := by
    intro s t a b hs ht
    rw [hcompatible, List.append_nil]
    simp only [List.mem_flatMap, List.mem_map, List.mem_filter, Prod.exists, mem_zipIdx_types]
    constructor
    · rintro ⟨a', s', hs', b', t', ⟨ht', hle⟩, heq⟩
      cases heq
      cases Option.some.inj (hs'.symm.trans hs)
      cases Option.some.inj (ht'.symm.trans ht)
      simpa using hle
    · rintro ⟨hle, hstated⟩
      exact ⟨a, s, hs, b, t, ⟨ht, by simp [hle, hstated]⟩, rfl⟩
  have hcomm : statedCompatible o b a = statedCompatible o a b := Bool.or_comm ..
  rw [isCompatible, pairListed, Bool.or_eq_true, List.contains_iff_mem, List.contains_iff_mem]
  refine (or_congr (hpair hs ht) (hpair ht hs)).trans ?_
  rw [hcomm, ← or_and_right]
  exact and_iff_right (Nat.le_total s t)

theorem countP_placeOf (i : Nat) (t : Model) :
    (List.range (draftOf o pool base).build.endpointCount).countP
      ((draftOf o pool base).build.placeOf · == (i, t)) =
    (pool.atoms[i]?.map fun m => (typesOf o base m).count t).getD 0 := by
  have hcount := count_endsFrom o base i t pool.atoms 0
  rw [if_pos (Nat.zero_le _), Nat.sub_zero, (names_draftOf o pool base).endpoints_eq,
    List.count_eq_countP, List.countP_map] at hcount
  exact hcount

/-- An owner and a type have an endpoint of some rank just if there is such a socket. -/
theorem lt_countP_placeOf {s : Socket} : s.number <
    (List.range (draftOf o pool base).build.endpointCount).countP
      ((draftOf o pool base).build.placeOf · == (s.atom, s.type)) ↔ pool.HasSocket o base s := by
  rw [countP_placeOf]
  cases hatom : pool.atoms[s.atom]? with
  | none =>
    refine iff_of_false (Nat.not_lt_zero _) ?_
    rintro ⟨m, b, hm, -⟩
    simp [hatom] at hm
  | some m =>
    rw [Option.map_some, Option.getD_some, lt_count_typesOf]
    constructor
    · rintro ⟨b, h⟩
      exact ⟨m, b, hatom, h⟩
    · rintro ⟨m', b, hm', h⟩
      cases Option.some.inj (hatom.symm.trans hm')
      exact ⟨b, h⟩

/-- Atoms of one model have the same endpoints. -/
theorem isUniform_draftOf : (draftOf o pool base).build.IsUniform := by
  refine (names_draftOf o pool base).isUniform_build fun i j m hi hj t => ?_
  rw [count_endsFrom, count_endsFrom, if_pos (Nat.zero_le i), if_pos (Nat.zero_le j), Nat.sub_zero,
    Nat.sub_zero, hi, hj]

/-! ### Sockets and endpoints -/

/-- The socket that an endpoint is. -/
def socketOf (p : WiringProblem) (e : Nat) : Socket :=
  ⟨p.ownerOf e, p.typeModelOf e, rank p.placeOf e⟩

theorem socketOf_inj {p : WiringProblem} {e f : Nat} (h : p.socketOf e = p.socketOf f) : e = f := by
  rw [socketOf, socketOf, Socket.mk.injEq] at h
  exact rank_inj p.placeOf (Prod.ext h.1 h.2.1) h.2.2

/-- The endpoints are the sockets. -/
theorem exists_socketOf_eq {s : Socket} : (∃ e < (draftOf o pool base).build.endpointCount,
    (draftOf o pool base).build.socketOf e = s) ↔ pool.HasSocket o base s := by
  rw [← lt_countP_placeOf]
  constructor
  · rintro ⟨e, he, rfl⟩
    exact rank_lt _ he
  · intro h
    obtain ⟨e, he, hplace, hrank⟩ := exists_rank_eq _ _ h
    refine ⟨e, he, ?_⟩
    rw [placeOf, Prod.mk.injEq] at hplace
    rw [socketOf, hplace.1, hplace.2, hrank]

theorem mem_candidates_draftOf {e f : Nat} : f ∈ (draftOf o pool base).build.candidates e ↔
    e < (draftOf o pool base).build.endpointCount ∧ f < (draftOf o pool base).build.endpointCount ∧
    ((draftOf o pool base).build.socketOf e).atom ≠ ((draftOf o pool base).build.socketOf f).atom ∧
    statedCompatible o ((draftOf o pool base).build.socketOf e).type
      ((draftOf o pool base).build.socketOf f).type := by
  have h := names_draftOf o pool base
  rw [h.isProper_build.mem_candidates]
  refine and_congr_right fun he => and_congr_right fun hf => and_congr ne_comm ?_
  exact isCompatible_ofPool o pool base (h.getElem?_ends he).2 (h.getElem?_ends hf).2

theorem statedCompatible_iff {a b : Model} : statedCompatible o a b ↔
    (o.isRelated a Vocabulary.compatibleWith b ∨ o.isRelated b Vocabulary.compatibleWith a) := by
  rw [statedCompatible, Bool.or_eq_true]

/-- A connected wiring of the problem is one of the sockets. -/
theorem isConnectedWiring_map {wires : List (Nat × Nat)}
    (h : (draftOf o pool base).build.IsConnectedWiring wires) :
    pool.IsConnectedWiring o base (wires.map fun q =>
      ((draftOf o pool base).build.socketOf q.1, (draftOf o pool base).build.socketOf q.2)) where
  hasSocket s hs := by
    rw [endsOf_map] at hs
    obtain ⟨x, hx, rfl⟩ := List.mem_map.1 hs
    obtain ⟨q, hq, hxq⟩ := mem_endsOf.1 hx
    obtain ⟨h1, h2, -⟩ := (mem_candidates_draftOf o pool base).1 (h.fits q hq)
    refine (exists_socketOf_eq o pool base).1 ⟨x, ?_, rfl⟩
    rcases hxq with rfl | rfl
    · exact h1
    · exact h2
  disjoint := by
    rw [endsOf_map]
    exact h.disjoint.map fun _ _ => socketOf_inj
  joins r hr := by
    obtain ⟨q, hq, rfl⟩ := List.mem_map.1 hr
    obtain ⟨-, -, hatom, htype⟩ := (mem_candidates_draftOf o pool base).1 (h.fits q hq)
    exact ⟨hatom, (statedCompatible_iff o).1 htype⟩
  connected i hi j hj := by
    rw [← (names_draftOf o pool base).instanceCount_eq] at hi hj
    refine eqvGen_map (g := id) (fun a b hab => .rel _ _ ?_) (h.connected i hi j hj)
    obtain ⟨q, hq, rfl, rfl⟩ := hab
    exact ⟨_, List.mem_map.2 ⟨q, hq, rfl⟩, rfl, rfl⟩

/-- A connected wiring of the sockets is one of the problem. -/
theorem exists_isConnectedWiring {wires : List (Socket × Socket)}
    (h : pool.IsConnectedWiring o base wires) :
    ∃ wires, (draftOf o pool base).build.IsConnectedWiring wires := by
  have hend : ∀ s, ∃ e, s ∈ endsOf wires → e < (draftOf o pool base).build.endpointCount ∧
      (draftOf o pool base).build.socketOf e = s := by
    intro s
    by_cases hs : s ∈ endsOf wires
    · obtain ⟨e, he⟩ := (exists_socketOf_eq o pool base).2 (h.hasSocket s hs)
      exact ⟨e, fun _ => he⟩
    · exact ⟨0, fun h => absurd h hs⟩
  choose g hg using hend
  have hends : ∀ q ∈ wires, q.1 ∈ endsOf wires ∧ q.2 ∈ endsOf wires :=
    fun q hq => ⟨mem_endsOf.2 ⟨q, hq, .inl rfl⟩, mem_endsOf.2 ⟨q, hq, .inr rfl⟩⟩
  refine ⟨wires.map fun q => (g q.1, g q.2), fun r hr => ?_, ?_, fun i hi j hj => ?_⟩
  · obtain ⟨q, hq, rfl⟩ := List.mem_map.1 hr
    obtain ⟨h1, h2⟩ := hends q hq
    refine (mem_candidates_draftOf o pool base).2 ⟨(hg _ h1).1, (hg _ h2).1, ?_, ?_⟩
    · rw [(hg _ h1).2, (hg _ h2).2]
      exact (h.joins q hq).1
    · rw [(hg _ h1).2, (hg _ h2).2]
      exact (statedCompatible_iff o).2 (h.joins q hq).2
  · rw [endsOf_map]
    refine h.disjoint.map_on fun s hs t ht hst => ?_
    rw [← (hg s hs).2, hst, (hg t ht).2]
  · rw [(names_draftOf o pool base).instanceCount_eq] at hi hj
    refine eqvGen_map (g := id) (fun a b hab => .rel _ _ ?_) (h.connected i hi j hj)
    obtain ⟨q, hq, rfl, rfl⟩ := hab
    obtain ⟨h1, h2⟩ := hends q hq
    exact ⟨_, List.mem_map.2 ⟨q, hq, rfl⟩, congrArg Socket.atom (hg _ h1).2,
      congrArg Socket.atom (hg _ h2).2⟩

end Pool

end WiringProblem

/-! ### The search of a pool -/

/-- A monitor that only reports progress. -/
def WiringMonitor.IsLog (m : WiringMonitor) : Prop := ∃ interval mask, m = .log interval mask

theorem ask_of_isLog (w : PartialWiring) (n : WiringStatistics) : ∀ {ms : List WiringMonitor},
    (∀ m ∈ ms, m.IsLog) → WiringComposite.ask w n ms = (.proceed, ms)
  | [], _ => rfl
  | m :: ms, h => by
    obtain ⟨interval, mask, rfl⟩ := h m List.mem_cons_self
    have ih := ask_of_isLog w n fun m hm => h m (List.mem_cons_of_mem _ hm)
    rw [WiringComposite.ask]
    simp only [WiringObserver.command, WiringMonitor.command, SearchCommand.isTerminate,
      Bool.false_eq_true, if_false, ih]

/-- Monitors that report progress never stop a search. -/
theorem isPatient_isLog :
    WiringSearch.IsPatient fun c : WiringComposite WiringMonitor => ∀ m ∈ c.members, m.IsLog where
  observe c event n hc m hm := by
    obtain ⟨m', hm', rfl⟩ := List.mem_map.1 hm
    obtain ⟨interval, mask, rfl⟩ := hc m' hm'
    exact ⟨interval, mask, rfl⟩
  command c w n hc := by
    refine ⟨c, ?_, hc⟩
    simp only [WiringObserver.command, ask_of_isLog w n hc]

theorem isLog_monitors {c : WiringConfig} (hc : c.timeout = none) (clock : Clock) :
    ∀ m ∈ (c.monitors clock).members, m.IsLog := by
  intro m hm
  rw [WiringConfig.monitors, hc] at hm
  obtain ⟨interval, -, rfl⟩ := List.mem_map.1 hm
  exact ⟨interval, _, rfl⟩

/-- Without a time limit the search of a pool always answers, and it finds a wiring just if the
sockets of the atoms can be wired in pairs that link all atoms. -/
theorem wire_decides (o : Ontology) (pool : Pool) {c : WiringConfig} (hc : c.timeout = none)
    (clock : Clock) : (pool.wire o c clock).result ≠ .unknown ∧
    (pool.isWirable o c clock ↔ ∃ wires, pool.IsConnectedWiring o c.interfaceBase wires) := by
  have hsolver : (({} : WiringSolver).withLimit c.minFeasible).IsReachable := .withLimit .new _
  have hp := (WiringProblem.names_draftOf o pool c.interfaceBase).isProper_build
  have hknown := WiringSolver.solve_ne_unknown
    (s := ({} : WiringSolver).withLimit c.minFeasible)
    (p := (WiringProblem.draftOf o pool c.interfaceBase).build) (.start c.seed c.branching)
    (c.monitors clock) isPatient_isLog (isLog_monitors hc clock)
  refine ⟨hknown, ?_⟩
  have hwirable : pool.isWirable o c clock =
      (WiringSolver.solve (({} : WiringSolver).withLimit c.minFeasible)
        (WiringProblem.draftOf o pool c.interfaceBase).build (.start c.seed c.branching)
        (c.monitors clock)).outcome.result.isFeasible := rfl
  rw [hwirable]
  cases hresult : (WiringSolver.solve (({} : WiringSolver).withLimit c.minFeasible)
    (WiringProblem.draftOf o pool c.interfaceBase).build (.start c.seed c.branching)
    (c.monitors clock)).outcome.result with
  | feasible g =>
    obtain ⟨w, hw, hconnected, -⟩ := WiringSolver.isSolution_of_solve hsolver hp _ _ hresult
    exact iff_of_true rfl ⟨_, WiringProblem.isConnectedWiring_map o pool c.interfaceBase
      (hw.isConnectedWiring hp hconnected)⟩
  | infeasible =>
    refine iff_of_false Bool.false_ne_true ?_
    rintro ⟨wires, hwires⟩
    obtain ⟨wires, hwires⟩ := WiringProblem.exists_isConnectedWiring o pool c.interfaceBase hwires
    exact WiringSolver.not_isConnectedWiring_of_solve hsolver hp _ _
      (WiringProblem.isUniform_draftOf o pool c.interfaceBase) hresult wires hwires
  | unknown => exact absurd hresult hknown

/-- Rovers have a plug and docks a socket that fits. -/
def plugsAndSockets : Ontology :=
  ((((((({} : CatalogDraft).subclass ⟨"Plug"⟩ ⟨"Interface"⟩).subclass ⟨"Socket"⟩
    ⟨"Interface"⟩).has ⟨"Rover"⟩ ⟨"Plug"⟩ 0 1).has ⟨"Dock"⟩ ⟨"Socket"⟩ 1 1).compatible
      ⟨"Plug"⟩ ⟨"Socket"⟩).build).ontology

/-- Interfaces are wired in order. -/
def inOrder : WiringConfig := { interfaceBase := ⟨"Interface"⟩, branching := .lexicographic }

theorem wire_decides_roverAndDock : inOrder.timeout = none ∧
    ∃ wires, (Pool.ofPairs [(⟨"Rover"⟩, 1), (⟨"Dock"⟩, 1)]).IsConnectedWiring plugsAndSockets
      inOrder.interfaceBase wires := by
  have hwirable : (Pool.ofPairs [(⟨"Rover"⟩, 1), (⟨"Dock"⟩, 1)]).isWirable plugsAndSockets inOrder
      ⟨fun _ => ⟨0⟩⟩ := by decide +kernel
  exact ⟨rfl, (wire_decides plugsAndSockets _ rfl ⟨fun _ => ⟨0⟩⟩).2.1 hwirable⟩

end Muster
