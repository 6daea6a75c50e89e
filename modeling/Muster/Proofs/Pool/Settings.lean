import Muster.Proofs.Pool.Enumeration

/-!
The settings of some wheels in the order of their places (`settingsOf`), and of these the stops of
an enumeration (`stops`). Their pools are the normal ones within the bound that the budget admits, in
the order of the odometer; with room for all instances of the bound only the setting of zeros is left
out, which gives their number.

Main statements: `mem_stops`, `pairwise_stops`, `precedes_poolOf`, `listsPools_poolsWithin`,
`length_poolsWithin`.
-/

namespace Muster

open Std

/-- Whether `p` comes before `q` on an odometer whose first model turns fastest: of the models that
they count differently, the last one has the smaller count in `p`. -/
def Pool.Precedes (p q : Pool) : Prop :=
  ∃ m, p.count m < q.count m ∧ ∀ m', compare m m' = .lt → p.count m' = q.count m'

/-- Whether pools of `n` instances are listed for a budget. -/
def EnumerationMode.Admits (budget n : Nat) : EnumerationMode → Prop
  | .max => n ≤ budget
  | .exact => n = budget

namespace Enumeration

variable {budget : Nat} {mode : EnumerationMode} {bound : Pool} {ws us vs : List Wheel}
  {ds : List (Model × Nat)}

/-! ### All settings -/

/-- The settings of wheels with these models and bounds, the first wheel turning fastest. -/
def settingsOf : List (Model × Nat) → List (List Wheel)
  | [] => [[]]
  | (m, b) :: ds => (settingsOf ds).flatMap fun rest =>
    (List.range (b + 1)).map fun c => ⟨m, b, c⟩ :: rest

theorem mem_settingsOf : ws ∈ settingsOf ds ↔ dials ws = ds ∧ InBounds ws := by
  induction ds generalizing ws with
  | nil =>
    simp only [settingsOf, List.mem_singleton, dials, List.map_eq_nil_iff]
    exact ⟨fun h => ⟨h, by simp [h, InBounds]⟩, fun h => h.1⟩
  | cons d ds ih =>
    obtain ⟨m, b⟩ := d
    simp only [settingsOf, List.mem_flatMap, List.mem_map, List.mem_range, ih]
    constructor
    · rintro ⟨rest, ⟨rfl, hrest⟩, c, hc, rfl⟩
      refine ⟨rfl, fun w hw => ?_⟩
      rcases List.mem_cons.1 hw with rfl | hw
      · exact Nat.le_of_lt_succ hc
      · exact hrest w hw
    · rintro ⟨hdials, hin⟩
      obtain ⟨w, rest, rfl, hw, hrest⟩ := List.map_eq_cons_iff.1 hdials
      have hle := hin w List.mem_cons_self
      cases hw
      exact ⟨rest, ⟨hrest, hin.tail⟩, w.count, Nat.lt_succ_of_le hle, rfl⟩

theorem pairwise_settingsOf (ds : List (Model × Nat)) :
    (settingsOf ds).Pairwise fun us vs => place us < place vs := by
  induction ds with
  | nil => exact List.pairwise_singleton _ _
  | cons d ds ih =>
    obtain ⟨m, b⟩ := d
    rw [settingsOf, List.pairwise_flatMap]
    constructor
    · intro rest _
      rw [List.pairwise_map]
      exact List.pairwise_lt_range.imp fun h => Nat.add_lt_add_right h _
    · refine ih.imp ?_
      intro rest rest' hlt us hus vs hvs
      obtain ⟨c, hc, rfl⟩ := List.mem_map.1 hus
      obtain ⟨d, hd, rfl⟩ := List.mem_map.1 hvs
      rw [List.mem_range] at hc hd
      exact (wheel_lt_iff (Nat.le_of_lt_succ hc) (Nat.le_of_lt_succ hd)).2 (.inl hlt)

theorem length_settingsOf (ds : List (Model × Nat)) :
    (settingsOf ds).length = productOf (ds.map fun d => d.2 + 1) := by
  induction ds with
  | nil => rfl
  | cons d ds ih =>
    rw [settingsOf, List.length_flatMap]
    simp only [List.length_map, List.length_range, List.map_const', List.sum_replicate, ih]
    rw [smul_eq_mul, Nat.mul_comm]
    rfl

/-! ### The stops in order -/

/-- The settings that an enumeration within `bound` stops at, in order. -/
def stops (bound : Pool) (budget : Nat) (mode : EnumerationMode) : List (List Wheel) :=
  (settingsOf (dialsOf bound)).filter fun ws => total ws != 0 && stopsAt budget mode (total ws)

theorem mem_stops : us ∈ stops bound budget mode ↔
    dials us = dialsOf bound ∧ IsStop budget mode us ∧ total us ≠ 0 := by
  rw [stops, List.mem_filter, mem_settingsOf, Bool.and_eq_true, bne_iff_ne]
  constructor
  · rintro ⟨⟨hdials, hin⟩, hpos, hstop⟩
    exact ⟨hdials, ⟨⟨hin, le_of_stopsAt hstop⟩, hstop⟩, hpos⟩
  · rintro ⟨hdials, hus, hpos⟩
    exact ⟨⟨hdials, hus.inBounds⟩, hpos, hus.stops⟩

theorem pairwise_stops (bound : Pool) (budget : Nat) (mode : EnumerationMode) :
    (stops bound budget mode).Pairwise fun us vs => place us < place vs :=
  (pairwise_settingsOf _).sublist List.filter_sublist

theorem stops_of_budget_eq_zero (bound : Pool) (mode : EnumerationMode) :
    stops bound 0 mode = [] := by
  rw [List.eq_nil_iff_forall_not_mem]
  intro us hus
  obtain ⟨-, hstop, hpos⟩ := mem_stops.1 hus
  exact hpos (Nat.le_zero.1 hstop.total_le)

theorem place_pos (h : us ∈ stops bound budget mode) : 0 < place us :=
  Nat.pos_of_ne_zero fun hzero => (mem_stops.1 h).2.2 (total_eq_zero_of_place hzero)

theorem mem_stops_iff (hbudget : budget ≠ 0) :
    us ∈ stops bound budget mode ↔ dials us = dialsOf bound ∧ IsStop budget mode us :=
  mem_stops.trans (and_congr_right fun _ =>
    ⟨fun h => h.1, fun h => ⟨h, (stopsAt_pos hbudget h.stops).ne'⟩⟩)

/-- A setting comes up once, so no list is longer than the number of settings. -/
theorem length_stops_le (h : dials ws = dialsOf bound) :
    (stops bound budget mode).length ≤ settings ws := by
  have hsettings : settings ws = productOf ((dials ws).map fun d => d.2 + 1) := by
    rw [settings, dials, List.map_map]
    rfl
  rw [hsettings, h, ← length_settingsOf]
  exact List.length_filter_le _ _

/-! ### The order of the pools -/

/-- Of two settings the one that comes first counts less at some wheel, and the wheels behind it
stand alike. -/
theorem exists_wheel_lt (hdials : dials us = dials vs) (hus : InBounds us) (hvs : InBounds vs)
    (hasc : us.Pairwise fun v w => compare v.model w.model = .lt) (h : place us < place vs) :
    ∃ u ∈ us, ∃ v ∈ vs, u.model = v.model ∧ u.count < v.count ∧
      ∀ w ∈ us, compare u.model w.model = .lt → w ∈ vs := by
  induction vs generalizing us with
  | nil => exact absurd h (Nat.not_lt_zero _)
  | cons v vs ih =>
    obtain ⟨u, us, rfl, hmodel, hbound, hrest⟩ := exists_cons_of_dials hdials
    obtain ⟨hless, hasc⟩ := List.pairwise_cons.1 hasc
    have hu := hus u List.mem_cons_self
    have hv := hvs v List.mem_cons_self
    rw [hbound] at hu
    rw [place, place, hbound, wheel_lt_iff hu hv] at h
    rcases h with h | ⟨hplace, hcount⟩
    · obtain ⟨u', hu', v', hv', hmodel', hcount', hbehind⟩ := ih hrest hus.tail hvs.tail hasc h
      refine ⟨u', List.mem_cons_of_mem _ hu', v', List.mem_cons_of_mem _ hv', hmodel', hcount', ?_⟩
      intro w hw hlt
      rcases List.mem_cons.1 hw with rfl | hw
      · have hgt := OrientedCmp.gt_of_lt (hless u' hu')
        rw [hgt] at hlt
        exact absurd hlt (by decide)
      · exact List.mem_cons_of_mem _ (hbehind w hw hlt)
    · obtain rfl := place_inj hrest.symm hus.tail hvs.tail hplace.symm
      refine ⟨u, List.mem_cons_self, v, List.mem_cons_self, hmodel, hcount, ?_⟩
      intro w hw hlt
      rcases List.mem_cons.1 hw with rfl | hw
      · exact absurd hlt (OrderedSet.compare_self_ne_lt _)
      · exact List.mem_cons_of_mem _ hw

/-- The pool of a setting counts what its wheels count. -/
theorem toNat_count_poolOf (hdials : dials us = dialsOf bound) (hus : InBounds us) {w : Wheel}
    (hw : w ∈ us) : ((poolOf us).count w.model).toNat = w.count := by
  obtain ⟨-, hentries⟩ := entries_poolOf hdials hus
  by_cases hzero : w.count = 0
  · by_contra hne
    have hcount : (poolOf us).count w.model ≠ 0 := by
      intro h
      rw [h, hzero] at hne
      exact hne rfl
    have hmem := Pool.mem_entries_of_count_ne_zero hcount
    rw [hentries] at hmem
    obtain ⟨v, hv, heq⟩ := List.mem_map.1 hmem
    obtain ⟨hv, hpos⟩ := List.mem_filter.1 hv
    have hnodup : (us.map Wheel.model).Nodup :=
      List.pairwise_map.2 ((ascending_of_dials hdials).imp fun {v w} hlt heq => by
        rw [heq] at hlt
        exact OrderedSet.compare_self_ne_lt _ hlt)
    obtain rfl := List.inj_on_of_nodup_map hnodup hv hw (congrArg Prod.fst heq)
    exact bne_iff_ne.1 hpos hzero
  · have hmem : (w.model, UInt32.ofNat w.count) ∈ (poolOf us).entries := by
      rw [hentries]
      exact List.mem_map.2 ⟨w, List.mem_filter.2 ⟨hw, bne_iff_ne.2 hzero⟩, rfl⟩
    rw [Pool.count_eq_of_mem hmem, toNat_ofNat_count hdials hus hw]

theorem count_poolOf_of_not_mem (hdials : dials us = dialsOf bound) (hus : InBounds us) {m : Model}
    (hm : m ∉ us.map Wheel.model) : (poolOf us).count m = 0 := by
  by_contra hne
  have hmem := Pool.mem_entries_of_count_ne_zero hne
  rw [(entries_poolOf hdials hus).2] at hmem
  obtain ⟨v, hv, heq⟩ := List.mem_map.1 hmem
  exact hm (List.mem_map.2 ⟨v, (List.mem_filter.1 hv).1, congrArg Prod.fst heq⟩)

/-- The order of the settings is the order of their pools. -/
theorem precedes_poolOf (hdials : dials us = dialsOf bound) (hdials' : dials vs = dialsOf bound)
    (hus : InBounds us) (hvs : InBounds vs) (h : place us < place vs) :
    (poolOf us).Precedes (poolOf vs) := by
  obtain ⟨u, hu, v, hv, hmodel, hcount, hbehind⟩ :=
    exists_wheel_lt (hdials.trans hdials'.symm) hus hvs (ascending_of_dials hdials) h
  have hmodels : us.map Wheel.model = vs.map Wheel.model := by
    have := congrArg (List.map Prod.fst) (hdials.trans hdials'.symm)
    rwa [dials, dials, List.map_map, List.map_map] at this
  refine ⟨u.model, ?_, fun m hm => ?_⟩
  · rw [UInt32.lt_iff_toNat_lt, toNat_count_poolOf hdials hus hu, hmodel,
      toNat_count_poolOf hdials' hvs hv]
    exact hcount
  · by_cases hmem : m ∈ us.map Wheel.model
    · obtain ⟨w, hw, rfl⟩ := List.mem_map.1 hmem
      rw [← UInt32.toNat_inj, toNat_count_poolOf hdials hus hw,
        toNat_count_poolOf hdials' hvs (hbehind w hw hm)]
    · rw [count_poolOf_of_not_mem hdials hus hmem,
        count_poolOf_of_not_mem hdials' hvs (hmodels ▸ hmem)]

/-! ### The list of the pools -/

/-- The pools within `bound` that an enumeration stops at, in order. -/
def poolsWithin (bound : Pool) (budget : Nat) (mode : EnumerationMode) : List Pool :=
  (stops bound budget mode).map poolOf

/-- The normal pools within `bound` that are not empty and have as many instances as the budget
admits, in the order of the odometer. -/
structure ListsPools (bound : Pool) (budget : Nat) (mode : EnumerationMode) (pools : List Pool) :
    Prop where
  mem_iff : ∀ p, p ∈ pools ↔ p.IsNormal ∧ p.isEmpty = false ∧ p.isSubset bound = true ∧
    mode.Admits budget p.totalAtoms
  ascending : pools.Pairwise Pool.Precedes

theorem stopsAt_iff {n : Nat} (hn : 0 < n) : stopsAt budget mode n = true ↔ mode.Admits budget n := by
  cases mode with
  | max =>
    simp only [stopsAt, decide_eq_true_eq, EnumerationMode.Admits]
    omega
  | exact => simp [stopsAt, EnumerationMode.Admits]

theorem listsPools_poolsWithin (bound : Pool) (budget : Nat) (mode : EnumerationMode) :
    ListsPools bound budget mode (poolsWithin bound budget mode) where
  mem_iff p := by
    rw [poolsWithin, List.mem_map]
    constructor
    · rintro ⟨us, hus, rfl⟩
      obtain ⟨hdials, hstop, hpos⟩ := mem_stops.1 hus
      obtain ⟨hnormal, hle, hstops⟩ := pool_of_isStop hdials hstop
      rw [← totalAtoms_poolOf hdials hstop.inBounds] at hpos
      have hpos := Nat.pos_of_ne_zero hpos
      exact ⟨hnormal, hnormal.totalAtoms_pos_iff.1 hpos, hle, (stopsAt_iff hpos).1 hstops⟩
    · rintro ⟨hnormal, hsome, hle, hadmits⟩
      have hpos := hnormal.totalAtoms_pos_iff.2 hsome
      have htotal := totalAtoms_poolOf (dials_settingOf bound p) (inBounds_settingOf hle)
      rw [poolOf_settingOf hnormal hle] at htotal
      refine ⟨settingOf bound p, mem_stops.2 ⟨dials_settingOf bound p, ?_, ?_⟩,
        poolOf_settingOf hnormal hle⟩
      · exact isStop_settingOf hnormal hle ((stopsAt_iff hpos).2 hadmits)
      · omega
  ascending := by
    rw [poolsWithin, List.pairwise_map]
    refine (pairwise_stops bound budget mode).imp_of_mem ?_
    intro us vs hus hvs hlt
    obtain ⟨hdials, hstop, -⟩ := mem_stops.1 hus
    obtain ⟨hdials', hstop', -⟩ := mem_stops.1 hvs
    exact precedes_poolOf hdials hdials' hstop.inBounds hstop'.inBounds hlt

/-! ### How many there are -/

theorem place_eq_zero_of_total : ∀ {ws : List Wheel}, total ws = 0 → place ws = 0
  | [], _ => rfl
  | w :: rest, h => by
    rw [total_cons] at h
    have hrest : place rest = 0 := place_eq_zero_of_total (by omega)
    rw [place, hrest]
    omega

theorem productOf_dialsOf (bound : Pool) : productOf ((dialsOf bound).map fun d => d.2 + 1) =
    productOf (bound.entries.map fun e => e.2.toNat + 1) := by
  have hentries : bound.normalized.entries = bound.entries.filter fun e => e.2 != 0 := rfl
  rw [dialsOf, hentries, List.map_map]
  induction bound.entries with
  | nil => rfl
  | cons e es ih =>
    rw [List.filter_cons]
    split
    · exact congrArg ((e.2.toNat + 1) * ·) ih
    · rename_i hzero
      have he : e.2 = 0 := by simpa using hzero
      rw [ih, List.map_cons, he]
      simp [productOf]

/-- One setting counts nothing. -/
theorem countP_total_eq_zero (bound : Pool) :
    (settingsOf (dialsOf bound)).countP (fun ws => total ws == 0) = 1 := by
  obtain ⟨hset, hplace, hreset⟩ := isSetting_reset 0 (settingOf bound bound)
  have hdials := hreset.trans (dials_settingOf bound bound)
  have hzeros : (settingOf bound bound).map Wheel.reset ∈ settingsOf (dialsOf bound) :=
    mem_settingsOf.2 ⟨hdials, hset.inBounds⟩
  have hnodup : (settingsOf (dialsOf bound)).Nodup :=
    (pairwise_settingsOf _).imp fun hlt heq => by rw [heq] at hlt; exact lt_irrefl _ hlt
  rw [← List.count_eq_one_of_mem hnodup hzeros, List.count]
  refine List.countP_congr fun us hus => ?_
  obtain ⟨hdials', hin⟩ := mem_settingsOf.1 hus
  rw [beq_iff_eq, beq_iff_eq]
  constructor
  · intro hzero
    refine place_inj (hdials'.trans hdials.symm) hset.inBounds hin ?_
    rw [hplace, place_eq_zero_of_total hzero]
  · rintro rfl
    exact total_eq_zero_of_place hplace

/-- With room for all instances of the bound, every setting that counts anything is a stop. -/
theorem stops_of_totalAtoms_le (hbudget : bound.totalAtoms ≤ budget) :
    stops bound budget .max = (settingsOf (dialsOf bound)).filter fun ws => !(total ws == 0) := by
  refine List.filter_congr fun us hus => ?_
  obtain ⟨hdials, hin⟩ := mem_settingsOf.1 hus
  have hle : total us ≤ budget := by
    rw [← totalAtoms_poolOf hdials hin]
    exact (Pool.totalAtoms_le (entries_poolOf hdials hin).1 (isSubset_poolOf hdials hin)).trans hbudget
  cases hzero : total us == 0 with
  | true => simp [bne, hzero]
  | false =>
    have hpos := Nat.pos_of_ne_zero (beq_eq_false_iff_ne.1 hzero)
    simp only [bne, hzero, Bool.not_false, Bool.true_and]
    exact decide_eq_true ⟨hpos, hle⟩

theorem length_poolsWithin (hbudget : bound.totalAtoms ≤ budget) :
    (poolsWithin bound budget .max).length + 1 =
      productOf (bound.entries.map fun e => e.2.toNat + 1) := by
  have hsplit := List.length_eq_length_filter_add (l := settingsOf (dialsOf bound))
    fun ws => total ws == 0
  rw [← List.countP_eq_length_filter, countP_total_eq_zero, length_settingsOf,
    productOf_dialsOf] at hsplit
  rw [poolsWithin, List.length_map, stops_of_totalAtoms_le hbudget, hsplit, Nat.add_comm]

theorem productOf_pos (es : List (Model × UInt32)) :
    0 < productOf (es.map fun e => e.2.toNat + 1) := by
  induction es with
  | nil => exact Nat.one_pos
  | cons e es ih => exact Nat.mul_pos (Nat.succ_pos _) ih

/-- A product that 64 bits hold is not cut off on the way. -/
theorem foldl_min_mul {es : List (Model × UInt32)} {n : Nat}
    (h : n * productOf (es.map fun e => e.2.toNat + 1) ≤ tallyLimit) :
    es.foldl (fun n e => Nat.min (n * (e.2.toNat + 1)) tallyLimit) n =
      n * productOf (es.map fun e => e.2.toNat + 1) := by
  induction es generalizing n with
  | nil => exact (Nat.mul_one n).symm
  | cons e es ih =>
    have hassoc : n * productOf ((e :: es).map fun e => e.2.toNat + 1) =
        n * (e.2.toNat + 1) * productOf (es.map fun e => e.2.toNat + 1) :=
      (Nat.mul_assoc ..).symm
    rw [hassoc] at h ⊢
    have hstep : n * (e.2.toNat + 1) ≤ tallyLimit :=
      (Nat.le_mul_of_pos_right _ (productOf_pos es)).trans h
    have hmin : Nat.min (n * (e.2.toNat + 1)) tallyLimit = n * (e.2.toNat + 1) :=
      Nat.min_eq_left hstep
    rw [List.foldl_cons, hmin, ih h]

theorem totalCombinations_eq
    (h : productOf (bound.entries.map fun e => e.2.toNat + 1) ≤ tallyLimit) :
    totalCombinations bound = productOf (bound.entries.map fun e => e.2.toNat + 1) - 1 := by
  rw [totalCombinations, foldl_min_mul (by rwa [Nat.one_mul]), Nat.one_mul]

end Enumeration
end Muster
