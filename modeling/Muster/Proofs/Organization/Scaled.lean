import Muster.Proofs.Organization
import Muster.Proofs.Property.Scaling

/-!
Support of resources with constraints. Each pool that is noted for the model of a resource and can
be taken some number of times to meet the constraints is taken that many times, and then kept within
the actors at hand. What comes of it serves the model, as it holds the noted pool. If all that was
asked for is at hand, it meets the constraints; what is cut off may be what was needed for them.

A pool that is said to be supporting holds a noted pool, whatever the constraints are. So it holds
what serves a resource with constraints only if it holds the noted pool so many times.

Main statements: `support_constrained`, `scaled_of_mem_support`, `mem_support_of_isSupporting`.
-/

namespace Muster.Organization

open Pool (IsMultiple)

variable {org org₀ : Organization} {m : FunctionalityMapping} {r : Resource}
  {fleet pool p q s : Pool} {k : Nat}

/-- What is scaled by a whole factor holds so many times the pool, up to the largest count. -/
theorem count_scale (hk : 0 < k) (hs : s.IsNormal) (h : scale s (.ofNat k) = some p)
    (hsome : p.isEmpty = false) :
    p.IsNormal ∧ ∀ a, (p.count a).toNat = min (k * (s.count a).toNat) countLimit := by
  rw [scale] at h
  split_ifs at h with hzero hone
  · obtain rfl := Option.some.inj h
    refine ⟨hs, fun a => ?_⟩
    have hlt := (s.count a).toNat_lt
    rw [Double.eq_of_same (by decide) hone, Nat.one_mul]
    exact (Nat.min_eq_left (by rw [countLimit]; omega)).symm
  · obtain rfl := Option.some.inj h
    exact Pool.count_multiply hk hsome

theorem exists_scale (hk : 0 < k) (hk' : k < 2 ^ 53) (hs : s.IsNormal) (hsome : s.isEmpty = false) :
    ∃ p, scale s (.ofNat k) = some p ∧ p.isEmpty = false := by
  rw [scale, Double.isZero_eq_false (Double.amount_ofNat_pos hk), if_neg Bool.false_ne_true]
  split
  · exact ⟨s, rfl, hsome⟩
  · exact ⟨_, rfl, Pool.isEmpty_multiply hk hk' hs hsome⟩

/-- A number of times that a pool is at hand is small enough to be told. -/
theorem lt_of_forall_mul_le (hs : s.IsNormal) (hsome : s.isEmpty = false)
    (h : ∀ a, k * (s.count a).toNat ≤ (pool.count a).toNat) : k < 2 ^ 53 := by
  obtain ⟨a, ha⟩ := hs.exists_count_ne_zero hsome
  have hle := Nat.le_mul_of_pos_right k (Pool.toNat_pos ha)
  exact (hle.trans (h a)).trans_lt (Pool.toNat_lt_exact (pool.count a))

/-- If so many times a pool is at hand, nothing is cut off. -/
theorem exists_bounded_scale (hk : 0 < k) (hs : s.IsNormal) (hsome : s.isEmpty = false)
    (h : ∀ a, k * (s.count a).toNat ≤ (pool.count a).toNat) :
    ∃ p, scale s (.ofNat k) = some p ∧ p.bounded pool = some p ∧ p.isEmpty = false ∧
      p.IsNormal ∧ IsMultiple k p s := by
  obtain ⟨p, hp, hsome'⟩ := exists_scale hk (lt_of_forall_mul_le hs hsome h) hs hsome
  obtain ⟨hnormal, hcount⟩ := count_scale hk hs hp hsome'
  have hmultiple : IsMultiple k p s := by
    intro a
    have hle := h a
    have hlt := (pool.count a).toNat_lt
    rw [hcount]
    exact Nat.min_eq_left (by rw [countLimit]; omega)
  refine ⟨p, hp, Pool.bounded_of_isSubset hnormal (Pool.isSubset_iff.2 fun a => ?_), hsome',
    hnormal, hmultiple⟩
  rw [UInt32.le_iff_toNat_le, hmultiple a]
  exact h a

/-- What is kept of a scaled pool: so many times the pool, as far as it is at hand. -/
theorem count_bounded_scale (hk : 0 < k) (hs : s.IsNormal) (hp : scale s (.ofNat k) = some p)
    (hq : p.bounded pool = some q) (hsome : q.isEmpty = false) (a : Model) :
    (q.count a).toNat = min (k * (s.count a).toNat) (pool.count a).toNat := by
  obtain rfl := Pool.eq_min_of_bounded hq
  have hsome' : p.isEmpty = false := Pool.isEmpty_of_isSubset (Pool.isNormal_zipWith _ p pool) hsome
    (Pool.min_isSubset_left p pool)
  have hlimit := (pool.count a).toNat_lt
  have hcount := (count_scale hk hs hp hsome').2 a
  rw [Pool.count_min]
  split
  · rename_i hlt
    rw [UInt32.lt_iff_toNat_lt, hcount] at hlt
    omega
  · rename_i hle
    rw [UInt32.lt_iff_toNat_lt, hcount, countLimit] at hle
    rw [hcount, countLimit]
    omega

/-- A pool has a factor if it is scaled; what has none is scaled by zero, which leaves nothing. -/
theorem scale_eq_some_iff {x : Except RequestError Double} :
    scale s (x.toOption.getD 0) = some p ↔ ∃ factor, x = .ok factor ∧ scale s factor = some p := by
  cases x with
  | error e =>
    have hzero : Double.isZero 0 = true := by decide +kernel
    refine iff_of_false ?_ ?_
    · show ¬ scale s 0 = some p
      rw [scale, if_pos hzero]
      exact fun h => absurd h (by simp)
    · rintro ⟨factor, hfactor, -⟩
      exact absurd hfactor (by simp)
  | ok factor =>
    constructor
    · exact fun h => ⟨factor, rfl, h⟩
    · rintro ⟨_, hfactor, h⟩
      obtain rfl := Except.ok.inj hfactor
      exact h

/-- What serves a resource with constraints: the noted pools that have a factor, scaled by it and
kept within the actors at hand. -/
theorem support_constrained (hm : org.mapping = .ok m) (hr : r.hasConstraints = true) :
    ∃ found, org.support r = .ok found ∧ ∀ q, q ∈ found ↔ ∃ s ∈ m.poolsOf r.model,
      ∃ factor, Pool.scalingFactor org.ontology r s = .ok factor ∧
        ∃ p, scale s factor = some p ∧ p.bounded org.pool = some q ∧ q.isEmpty = false := by
  rw [support, hm]
  simp only [bind, Except.bind, pure, Except.pure, hr, Bool.not_true, Bool.false_eq_true, if_false]
  refine ⟨_, rfl, fun q => ?_⟩
  rw [Pool.mem_boundAll_iff, Pool.scalingFactors, ← List.map_prod_left_eq_zip]
  simp only [OrderedSet.mem_ofList, List.mem_filterMap, List.mem_map, exists_exists_and_eq_and,
    scale_eq_some_iff]
  constructor
  · rintro ⟨p, ⟨s, hs, factor, hfactor, hp⟩, hq⟩
    exact ⟨s, hs, factor, hfactor, p, hp, hq⟩
  · rintro ⟨s, hs, factor, hfactor, p, hp, hq⟩
    exact ⟨p, ⟨s, hs, factor, hfactor, hp⟩, hq⟩

/-- A noted pool that can be taken a number of times to meet the constraints is found so many times,
if all of that is at hand. Without constraints it need not be taken more than once. -/
theorem exists_multiple_of_support {found : PoolSet} (hm : org.mapping = .ok m)
    (hfound : org.support r = .ok found) (hs : s ∈ m.poolsOf r.model) (hnormal : s.IsNormal)
    (hsome : s.isEmpty = false) (hk : 0 < k)
    (hfactor : Pool.scalingFactor org.ontology r s = .ok (.ofNat k))
    (hhand : ∀ a, k * (s.count a).toNat ≤ (org.pool.count a).toNat) :
    ∃ q ∈ found, q.IsNormal ∧ IsMultiple k q s := by
  cases hr : r.hasConstraints with
  | false =>
    have hempty : r.constraints = [] := by simpa [Resource.hasConstraints] using hr
    rw [Pool.scalingFactor_of_isEmpty hempty, Except.ok.injEq] at hfactor
    obtain rfl : k = 1 := by
      refine Double.eq_of_same (by decide) ?_
      rw [← hfactor]
      decide +kernel
    obtain rfl := Except.ok.inj (hfound.symm.trans (support_plain hm hr))
    exact ⟨s, hs, hnormal, fun a => (Nat.one_mul _).symm⟩
  | true =>
    obtain ⟨found', hfound', hmem⟩ := support_constrained hm hr
    obtain rfl := Except.ok.inj (hfound.symm.trans hfound')
    obtain ⟨p, hp, hbounded, hsome', hnormal', hmultiple⟩ :=
      exists_bounded_scale hk hnormal hsome hhand
    exact ⟨p, (hmem p).2 ⟨s, hs, _, hfactor, p, hp, hbounded, hsome'⟩, hnormal', hmultiple⟩

/-- A noted pool that can be taken a number of times to meet the constraints is found so many times,
if all of that is at hand. What is found lies within the actors at hand, serves the model, and is a
noted pool, taken such a number of times as far as it is at hand. If all of that is at hand, every
constrained property has a value within the bound of its constraints. -/
theorem scaled_of_mem_support (h : org₀.prepare fleet = .ok org) (hr : r.hasConstraints = true) :
    ∃ noted found, org.support ⟨r.model, []⟩ = .ok noted ∧ org.support r = .ok found ∧
      (∀ s ∈ noted, ∀ k, 0 < k → Pool.scalingFactor org.ontology r s = .ok (.ofNat k) →
        (∀ a, k * (s.count a).toNat ≤ (org.pool.count a).toNat) →
          ∃ q ∈ found, IsMultiple k q s) ∧
      ∀ q ∈ found, q.isSubset org.pool = true ∧
        Pool.supportType org.ontology [r.model] q = .ok .fullSupport ∧
        ∃ s ∈ noted, ∃ k, 0 < k ∧ Pool.scalingFactor org.ontology r s = .ok (.ofNat k) ∧
          (∀ a, (q.count a).toNat = min (k * (s.count a).toNat) (org.pool.count a).toNat) ∧
          ((∀ a, k * (s.count a).toNat ≤ (org.pool.count a).toNat) → ∀ property ∈ r.properties,
            q.HasWholeValues org.ontology property → ∃ v b,
              q.propertyValue org.ontology property = some v ∧
              ValueBound.merge property r.constraints = .ok b ∧ b.contains v = true) := by
  obtain ⟨m, hm, hmapping⟩ := mapping_of_prepare h
  obtain ⟨found, hfound, hmem⟩ := support_constrained hm hr
  refine ⟨m.poolsOf r.model, found, support_plain hm rfl, hfound, fun s hs k hk hfactor hhand => ?_,
    fun q hq => ?_⟩
  · obtain ⟨-, hnormal, -, hsome⟩ := Pool.within_of_mem_poolsOf hmapping hs
    obtain ⟨q, hq, -, hmultiple⟩ :=
      exists_multiple_of_support hm hfound hs hnormal hsome hk hfactor hhand
    exact ⟨q, hq, hmultiple⟩
  obtain ⟨s, hs, factor, hfactor, p, hp, hbounded, hsome⟩ := (hmem q).1 hq
  obtain ⟨-, hnormal, hle, hsome'⟩ := Pool.within_of_mem_poolsOf hmapping hs
  have hserves := Pool.serves_of_mem_poolsOf hmapping hs
  obtain ⟨⟨k, hk, rfl⟩, hall⟩ := Pool.scalingFactor_spec hfactor
  have hcount := count_bounded_scale hk hnormal hp hbounded hsome
  have hsub : s.isSubset q = true := by
    rw [Pool.isSubset_iff] at hle ⊢
    intro a
    have hlea := UInt32.le_iff_toNat_le.1 (hle a)
    have hmul := Nat.le_mul_of_pos_left (s.count a).toNat hk
    rw [UInt32.le_iff_toNat_le, hcount]
    exact le_min hmul hlea
  refine ⟨?_, Pool.supportType_eq_full_iff.2 (hserves.mono hsub), s, hs, k, hk, hfactor, hcount,
    fun hhand property hproperty hwhole => ?_⟩
  · rw [Pool.eq_min_of_bounded hbounded]
    exact Pool.min_isSubset_right p org.pool
  · have hmultiple : IsMultiple k q s := fun a => by rw [hcount, Nat.min_eq_left (hhand a)]
    have hlt : k < 2 ^ 53 := lt_of_forall_mul_le hnormal hsome' hhand
    obtain ⟨v, b, hv, hb, hcontains⟩ := hall property hproperty
    obtain ⟨w, hw, hwithin⟩ :=
      Pool.contains_propertyValue hk hlt hmultiple hwhole hv hcontains
    exact ⟨w, b, hw, hb, hwithin⟩

/-- Sherpas carry, four units each. -/
def sherpasWithBays : CatalogDraft :=
  ((((({} : CatalogDraft).subclass ⟨"Sherpa"⟩ Vocabulary.actor).subclass ⟨"Carry"⟩
    Vocabulary.functionality).has ⟨"Carry"⟩ ⟨"Bay"⟩ 1 1).has ⟨"Sherpa"⟩ ⟨"Bay"⟩ 0 1).dataValue
    ⟨"Sherpa"⟩ ⟨"payload"⟩ 4

/-- Some sherpas. -/
def sherpas (n : UInt32) : Pool := .ofPairs [(⟨"Sherpa"⟩, n)]

/-- An organization of sherpas. -/
def carriers : Organization where
  ontology := sherpasWithBays.build.ontology
  clock := Pool.stopped

/-- To carry a load. -/
def carrying (load : Double) : Resource := ⟨⟨"Carry"⟩, [⟨⟨"payload"⟩, .greaterOrEqual, load⟩]⟩

/-- Two sherpas carry eight units. -/
theorem scaled_of_mem_support_carriers : ∃ org found v b, carriers.prepare (sherpas 2) = .ok org ∧
    org.support (carrying 8) = .ok found ∧ sherpas 2 ∈ found ∧
    (sherpas 2).propertyValue org.ontology ⟨"payload"⟩ = some v ∧
    ValueBound.merge ⟨"payload"⟩ (carrying 8).constraints = .ok b ∧ b.contains v = true := by
  obtain ⟨org, horg, htest⟩ : ∃ org, carriers.prepare (sherpas 2) = .ok org ∧
      (decide (org.pool = sherpas 2) &&
        (decide ((sherpas 2).HasWholeValues org.ontology ⟨"payload"⟩) &&
        ((org.support ⟨⟨"Carry"⟩, []⟩).toOption.any (fun noted =>
            decide (noted.toList = [sherpas 1])) &&
        ((org.support (carrying 8)).toOption.any (fun found => decide (sherpas 2 ∈ found)) &&
        (Pool.scalingFactor org.ontology (carrying 8) (sherpas 1)).toOption.any fun factor =>
            factor.same 2)))) = true := Pool.exists_ok_of_any (by decide +kernel)
  simp only [Bool.and_eq_true, decide_eq_true_iff] at htest
  obtain ⟨hpool, hwhole, hnoted, hfound, hfactor⟩ := htest
  obtain ⟨noted, hnoted, hlist⟩ := Pool.exists_ok_of_any hnoted
  obtain ⟨found, hfound, hmem⟩ := Pool.exists_ok_of_any hfound
  obtain ⟨factor, hfactor, htwo⟩ := Pool.exists_ok_of_any hfactor
  obtain ⟨noted', found', hnoted', hfound', -, hall⟩ :=
    scaled_of_mem_support horg (r := carrying 8) (by decide)
  obtain rfl := Except.ok.inj (hnoted.symm.trans hnoted')
  obtain rfl := Except.ok.inj (hfound.symm.trans hfound')
  obtain ⟨-, -, s, hs, k, -, hk, -, hvalues⟩ := hall (sherpas 2) (of_decide_eq_true hmem)
  obtain rfl : s = sherpas 1 := by
    rw [OrderedSet.mem_def, of_decide_eq_true hlist] at hs
    exact List.mem_singleton.1 hs
  obtain rfl := Except.ok.inj (hfactor.symm.trans hk)
  obtain rfl := Double.eq_of_same (by decide) htwo
  have hhand : ∀ a, 2 * ((sherpas 1).count a).toNat ≤ (org.pool.count a).toNat := by
    intro a
    rw [hpool, sherpas, sherpas, Pool.count_ofPairs_singleton (by decide),
      Pool.count_ofPairs_singleton (by decide)]
    split <;> decide
  obtain ⟨v, b, hv, hb, hcontains⟩ := hvalues hhand ⟨"payload"⟩ (by decide) hwhole
  exact ⟨org, found, v, b, horg, hfound, of_decide_eq_true hmem, hv, hb, hcontains⟩

/-- Twelve units would take three sherpas. The two that are at hand are said to carry them. -/
theorem not_contains_carriers : ∃ org found v b, carriers.prepare (sherpas 2) = .ok org ∧
    org.support (carrying 12) = .ok found ∧ sherpas 2 ∈ found ∧
    (sherpas 2).propertyValue org.ontology ⟨"payload"⟩ = some v ∧
    ValueBound.merge ⟨"payload"⟩ (carrying 12).constraints = .ok b ∧ b.contains v = false := by
  obtain ⟨org, horg, htest⟩ : ∃ org, carriers.prepare (sherpas 2) = .ok org ∧
      ((org.support (carrying 12)).toOption.any (fun found => decide (sherpas 2 ∈ found)) &&
        ((sherpas 2).propertyValue org.ontology ⟨"payload"⟩).any fun v =>
          (ValueBound.merge ⟨"payload"⟩ (carrying 12).constraints).toOption.any fun b =>
            !b.contains v) = true := Pool.exists_ok_of_any (by decide +kernel)
  rw [Bool.and_eq_true] at htest
  obtain ⟨found, hfound, hmem⟩ := Pool.exists_ok_of_any htest.1
  obtain ⟨v, hv, hbound⟩ := (Option.any_eq_true ..).1 htest.2
  obtain ⟨b, hb, houtside⟩ := Pool.exists_ok_of_any hbound
  rw [Bool.not_eq_true'] at houtside
  exact ⟨org, found, v, b, horg, hfound, of_decide_eq_true hmem, hv, hb, houtside⟩

/-- A pool that is supporting can be wired and holds a pool of actors that serves the model of every
resource. If that pool has to be taken a number of times to meet the constraints of a resource, and
both the supporting pool and the actors at hand hold all of that, then what serves the resource is
in the supporting pool as well. -/
theorem mem_support_of_isSupporting (h : org₀.prepare fleet = .ok org) {rs : List Resource}
    {timeout : Duration} (hsupporting : org.isSupporting pool rs timeout = .ok true) :
    org.isFeasible pool timeout = true ∧ ∃ s, s.IsNormal ∧ s.isSubset pool = true ∧
      s.isSubset org.pool = true ∧ ∀ r ∈ rs,
        (∃ noted, org.support ⟨r.model, []⟩ = .ok noted ∧ s ∈ noted) ∧
        ∀ k, 0 < k → Pool.scalingFactor org.ontology r s = .ok (.ofNat k) →
          (∀ a, k * (s.count a).toNat ≤ (pool.count a).toNat ∧
            k * (s.count a).toNat ≤ (org.pool.count a).toNat) →
          ∃ found, org.support r = .ok found ∧ ∃ q ∈ found, q.IsNormal ∧ IsMultiple k q s ∧
            q.isSubset pool = true := by
  obtain ⟨m, hm, hmapping⟩ := mapping_of_prepare h
  have hne : rs ≠ [] := by
    rintro rfl
    rw [isSupporting, commonSupport, hm] at hsupporting
    exact absurd (Except.ok.inj hsupporting) (by simp [OrderedSet.empty])
  obtain ⟨answer, hanswer, hiff⟩ := isSupporting_spec hm hne pool timeout
  obtain rfl := Except.ok.inj (hsupporting.symm.trans hanswer)
  obtain ⟨hfeasible, s, hle, hs⟩ := hiff.1 rfl
  obtain ⟨r₀, hr₀⟩ := List.exists_mem_of_ne_nil rs hne
  obtain ⟨-, hnormal, hle', hsome⟩ := Pool.within_of_mem_poolsOf hmapping (hs r₀ hr₀)
  refine ⟨hfeasible, s, hnormal, hle, hle', fun r hr => ⟨⟨_, support_plain hm rfl, hs r hr⟩, ?_⟩⟩
  intro k hk hfactor hhand
  obtain ⟨found, hfound⟩ := exists_support hm r
  obtain ⟨q, hq, hnormal', hmultiple⟩ := exists_multiple_of_support hm hfound (hs r hr) hnormal
    hsome hk hfactor fun a => (hhand a).2
  refine ⟨found, hfound, q, hq, hnormal', hmultiple, Pool.isSubset_iff.2 fun a => ?_⟩
  rw [UInt32.le_iff_toNat_le, hmultiple a]
  exact (hhand a).1

/-- An organization of sherpas that link up with each other. -/
def linkedCarriers : Organization where
  ontology := ((sherpasWithBays.has ⟨"Sherpa"⟩ ⟨"Link"⟩ 0 1).compatible ⟨"Link"⟩
    ⟨"Link"⟩).build.ontology
  clock := Pool.stopped
  config := Pool.linkedInOrder

/-- Two sherpas carry four units, as one of them does, and eight units together. -/
theorem mem_support_carriers : ∃ org, linkedCarriers.prepare (sherpas 2) = .ok org ∧
    org.isSupporting (sherpas 2) [carrying 4, carrying 8] ⟨0⟩ = .ok true ∧
    (∃ found, org.support (carrying 4) = .ok found ∧ (sherpas 2).Holds found) ∧
    ∃ found, org.support (carrying 8) = .ok found ∧ (sherpas 2).Holds found := by
  obtain ⟨org, horg, htest⟩ : ∃ org, linkedCarriers.prepare (sherpas 2) = .ok org ∧
      (decide (org.pool = sherpas 2) &&
        ((org.isSupporting (sherpas 2) [carrying 4, carrying 8] ⟨0⟩).toOption.any id &&
        ((org.support ⟨⟨"Carry"⟩, []⟩).toOption.any (fun noted =>
            decide (noted.toList = [sherpas 1])) &&
        ((Pool.scalingFactor org.ontology (carrying 4) (sherpas 1)).toOption.any (fun factor =>
            decide (factor = .ofNat 1)) &&
        (Pool.scalingFactor org.ontology (carrying 8) (sherpas 1)).toOption.any fun factor =>
            decide (factor = .ofNat 2))))) = true := Pool.exists_ok_of_any (by decide +kernel)
  simp only [Bool.and_eq_true, decide_eq_true_iff] at htest
  obtain ⟨hpool, hanswer, hnoted, hfour, height⟩ := htest
  obtain ⟨answer, hanswer, rfl⟩ := Pool.exists_ok_of_any hanswer
  obtain ⟨noted, hnoted, hlist⟩ := Pool.exists_ok_of_any hnoted
  obtain ⟨factor, hfour, hone⟩ := Pool.exists_ok_of_any hfour
  obtain ⟨factor', height, htwo⟩ := Pool.exists_ok_of_any height
  rw [of_decide_eq_true hone] at hfour
  rw [of_decide_eq_true htwo] at height
  obtain ⟨-, s, -, -, -, hs⟩ := mem_support_of_isSupporting horg hanswer
  obtain ⟨⟨noted', hnoted', hmem⟩, hresource⟩ := hs (carrying 4) (by simp)
  obtain ⟨-, hresource'⟩ := hs (carrying 8) (by simp)
  obtain rfl := Except.ok.inj (hnoted.symm.trans hnoted')
  obtain rfl : s = sherpas 1 := by
    rw [OrderedSet.mem_def, of_decide_eq_true hlist] at hmem
    exact List.mem_singleton.1 hmem
  have hhand : ∀ k ≤ 2, ∀ a, k * ((sherpas 1).count a).toNat ≤ ((sherpas 2).count a).toNat := by
    intro k hk a
    rw [sherpas, sherpas, Pool.count_ofPairs_singleton (by decide),
      Pool.count_ofPairs_singleton (by decide)]
    split
    · simpa using hk
    · simp
  rw [hpool] at hresource hresource'
  obtain ⟨found, hfound, q, hq, -, -, hle⟩ := hresource 1 (by decide) hfour fun a =>
    ⟨hhand 1 (by decide) a, hhand 1 (by decide) a⟩
  obtain ⟨found', hfound', q', hq', -, -, hle'⟩ := hresource' 2 (by decide) height fun a =>
    ⟨hhand 2 (by decide) a, hhand 2 (by decide) a⟩
  exact ⟨org, horg, hanswer, ⟨found, hfound, q, hq, hle⟩, found', hfound', q', hq', hle'⟩

/-- It takes two sherpas to carry eight units, yet one is said to be supporting. -/
theorem not_holds_support_carriers : ∃ org pools, carriers.prepare (sherpas 2) = .ok org ∧
    org.isSupporting (sherpas 1) [carrying 8] ⟨0⟩ = .ok true ∧
    org.support (carrying 8) = .ok pools ∧ ¬(sherpas 1).Holds pools := by
  obtain ⟨org, horg, htest⟩ : ∃ org, carriers.prepare (sherpas 2) = .ok org ∧
      (((org.isSupporting (sherpas 1) [carrying 8] ⟨0⟩).toOption.any id) &&
        (org.support (carrying 8)).toOption.any fun pools =>
          decide (¬(sherpas 1).Holds pools)) = true := Pool.exists_ok_of_any (by decide +kernel)
  rw [Bool.and_eq_true] at htest
  obtain ⟨answer, hanswer, htrue⟩ := Pool.exists_ok_of_any htest.1
  obtain ⟨pools, hpools, hnone⟩ := Pool.exists_ok_of_any htest.2
  exact ⟨org, pools, horg, htrue ▸ hanswer, hpools, of_decide_eq_true hnone⟩

end Muster.Organization
