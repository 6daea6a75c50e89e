import Muster.Functionality.Search
import Muster.Proofs.Pool.Counts

/-!
Enumerations list the pools within their bound. The place of a setting is the number of settings
before it, the count of the first wheel weighing least. A turn goes to the next place within the
bounds and the budget, and `seek` to the next one where the enumeration stops, so from the first
stop on all of them are passed. The settings of the wheels of a bound are the pools within it.

Main statements: `isNext_turn`, `isNext_seek`, `isStop_settingOf`, `foldUntil_eq_foldlM`.
-/

namespace Muster.Enumeration

open Std

variable {budget : Nat} {mode : EnumerationMode} {w : Wheel} {ws us vs rest : List Wheel}

/-- The models and bounds of wheels, which no turn changes. -/
def dials (ws : List Wheel) : List (Model × Nat) := ws.map fun w => (w.model, w.bound)

/-- The number of settings before the present one. -/
def place : List Wheel → Nat
  | [] => 0
  | w :: rest => w.count + (w.bound + 1) * place rest

/-- Whether no wheel is past its bound. -/
def InBounds (ws : List Wheel) : Prop := ∀ w ∈ ws, w.count ≤ w.bound

/-- Whether the wheels keep to their bounds and to the budget. -/
structure IsSetting (budget : Nat) (ws : List Wheel) : Prop where
  inBounds : InBounds ws
  total_le : total ws ≤ budget

/-- `vs` is the first setting with a property that comes after `ws`. -/
structure IsNext (P : List Wheel → Prop) (ws vs : List Wheel) : Prop where
  dials_eq : dials vs = dials ws
  holds : P vs
  lt : place ws < place vs
  le : ∀ us, dials us = dials ws → P us → place ws < place us → place vs ≤ place us

/-- No setting with a property comes after `ws`. -/
def IsLast (P : List Wheel → Prop) (ws : List Wheel) : Prop :=
  ∀ us, dials us = dials ws → P us → place us ≤ place ws

/-! ### Places -/

theorem exists_cons_of_dials (h : dials us = dials (w :: rest)) :
    ∃ u us', us = u :: us' ∧ u.model = w.model ∧ u.bound = w.bound ∧ dials us' = dials rest := by
  obtain ⟨u, us', rfl, hu, hrest⟩ := List.map_eq_cons_iff.1 h
  exact ⟨u, us', rfl, congrArg Prod.fst hu, congrArg Prod.snd hu, hrest⟩

theorem total_cons (w : Wheel) (rest : List Wheel) : total (w :: rest) = w.count + total rest := rfl

theorem InBounds.tail (h : InBounds (w :: rest)) : InBounds rest :=
  fun v hv => h v (List.mem_cons_of_mem _ hv)

theorem IsSetting.tail (h : IsSetting budget (w :: rest)) : IsSetting budget rest :=
  ⟨h.inBounds.tail, (Nat.le_add_left ..).trans h.total_le⟩

/-- Places are compared by the later wheels first. -/
theorem wheel_lt_iff {b c d x y : Nat} (hc : c ≤ b) (hd : d ≤ b) :
    c + (b + 1) * x < d + (b + 1) * y ↔ x < y ∨ x = y ∧ c < d := by
  rcases Nat.lt_trichotomy x y with h | rfl | h
  · have := Nat.mul_le_mul_left (b + 1) (Nat.succ_le_of_lt h)
    rw [Nat.mul_succ] at this
    omega
  · omega
  · have := Nat.mul_le_mul_left (b + 1) (Nat.succ_le_of_lt h)
    rw [Nat.mul_succ] at this
    omega

theorem place_lt_settings : ∀ {ws : List Wheel}, InBounds ws → place ws < settings ws
  | [], _ => Nat.one_pos
  | w :: rest, h => by
    have hrest := place_lt_settings h.tail
    have hw := h w List.mem_cons_self
    have hstep := Nat.mul_le_mul_left (w.bound + 1) (Nat.succ_le_of_lt hrest)
    rw [Nat.mul_succ] at hstep
    have hsettings : settings (w :: rest) = (w.bound + 1) * settings rest := rfl
    rw [place, hsettings]
    omega

/-- The place decides the setting. -/
theorem place_inj : ∀ {ws us : List Wheel}, dials us = dials ws → InBounds ws → InBounds us →
    place us = place ws → us = ws
  | [], us, h, _, _, _ => List.map_eq_nil_iff.1 h
  | w :: rest, us, h, hws, hus, hplace => by
    obtain ⟨u, us', rfl, hmodel, hbound, hdials⟩ := exists_cons_of_dials h
    have hu := hus u List.mem_cons_self
    have hw := hws w List.mem_cons_self
    rw [hbound] at hu
    rw [place, place, hbound] at hplace
    have hlt := mt (wheel_lt_iff hu hw).2 hplace.not_lt
    have hgt := mt (wheel_lt_iff hw hu).2 hplace.symm.not_lt
    have hcount : u.count = w.count := by omega
    rw [place_inj hdials hws.tail hus.tail (by omega)]
    cases u
    cases w
    simp only at hmodel hbound hcount
    rw [hmodel, hbound, hcount]

theorem total_eq_zero_of_place : ∀ {ws : List Wheel}, place ws = 0 → total ws = 0
  | [], _ => rfl
  | w :: rest, h => by
    rw [place] at h
    obtain ⟨hcount, hmul⟩ := Nat.add_eq_zero_iff.1 h
    have hrest := (Nat.mul_eq_zero.1 hmul).resolve_left (Nat.succ_ne_zero _)
    rw [total_cons, total_eq_zero_of_place hrest, hcount]

theorem settings_congr (h : dials us = dials ws) : settings us = settings ws := by
  have hmap : ∀ vs : List Wheel, settings vs = productOf ((dials vs).map fun d => d.2 + 1) :=
    fun vs => by rw [settings, dials, List.map_map]; rfl
  rw [hmap, hmap, h]

/-! ### Turning -/

/-- A wheel that may not turn stands as far as the wheels behind it allow. -/
theorem count_le_of_stuck {u : Wheel} (hws : IsSetting budget (w :: rest))
    (hus : IsSetting budget (u :: us)) (hbound : u.bound = w.bound)
    (hdials : dials us = dials rest) (hplace : place us = place rest)
    (hstuck : ¬ (w.count < w.bound ∧ total (w :: rest) < budget)) : u.count ≤ w.count := by
  have htail := place_inj hdials hws.inBounds.tail hus.inBounds.tail hplace
  have hu := hus.inBounds u List.mem_cons_self
  have htotal := hus.total_le
  rw [total_cons] at hstuck htotal
  rw [htail] at htotal
  omega

/-- A turn goes to the next setting within bounds and budget. -/
theorem isNext_turn : ∀ {ws vs : List Wheel}, IsSetting budget ws →
    turn budget (total ws) ws = some vs → IsNext (IsSetting budget) ws vs
  | w :: rest, vs, hws, h => by
    have hw := hws.inBounds w List.mem_cons_self
    rw [turn] at h
    split at h
    · rename_i hmay
      obtain rfl := Option.some.inj h
      refine ⟨rfl, ⟨?_, ?_⟩, ?_, fun us hdials hus hlt => ?_⟩
      · intro v hv
        rcases List.mem_cons.1 hv with rfl | hv
        · exact hmay.1
        · exact hws.inBounds.tail v hv
      · rw [total_cons] at hmay ⊢
        show w.count + 1 + total rest ≤ budget
        omega
      · exact Nat.add_lt_add_right (Nat.lt_succ_self _) _
      · obtain ⟨u, us', rfl, -, hbound, -⟩ := exists_cons_of_dials hdials
        have hu := hus.inBounds u List.mem_cons_self
        rw [hbound] at hu
        refine Nat.le_of_not_lt fun hback => ?_
        simp only [place, hbound] at hlt hback
        rw [wheel_lt_iff hw hu] at hlt
        rw [wheel_lt_iff hu hmay.1] at hback
        omega
    · rename_i hstuck
      obtain ⟨vs', hvs', rfl⟩ := Option.map_eq_some_iff.1 h
      rw [total_cons, Nat.add_sub_cancel_left] at hvs'
      have hnext := isNext_turn hws.tail hvs'
      have hplace : place (w.reset :: vs') = 0 + (w.bound + 1) * place vs' := rfl
      refine ⟨congrArg (List.cons (w.model, w.bound)) hnext.dials_eq, ⟨?_, ?_⟩, ?_,
        fun us hdials hus hlt => ?_⟩
      · intro v hv
        rcases List.mem_cons.1 hv with rfl | hv
        · exact Nat.zero_le _
        · exact hnext.holds.inBounds v hv
      · rw [total_cons]
        show 0 + total vs' ≤ budget
        have := hnext.holds.total_le
        omega
      · rw [hplace, place, wheel_lt_iff hw (Nat.zero_le _)]
        exact .inl hnext.lt
      · obtain ⟨u, us', rfl, -, hbound, hrest⟩ := exists_cons_of_dials hdials
        have hu := hus.inBounds u List.mem_cons_self
        rw [hbound] at hu
        rw [place, place, hbound, wheel_lt_iff hw hu] at hlt
        rw [hplace, place, hbound]
        rcases hlt with hlt | ⟨heq, hcount⟩
        · have := Nat.mul_le_mul_left (w.bound + 1) (hnext.le us' hrest hus.tail hlt)
          omega
        · exact absurd (count_le_of_stuck hws hus hbound hrest heq.symm hstuck) (by omega)

theorem isLast_turn : ∀ {ws : List Wheel}, IsSetting budget ws →
    turn budget (total ws) ws = none → IsLast (IsSetting budget) ws
  | [], _, _ => fun us hdials _ => by rw [List.map_eq_nil_iff.1 hdials]
  | w :: rest, hws, h => by
    have hw := hws.inBounds w List.mem_cons_self
    rw [turn] at h
    split at h
    · exact absurd h (by simp)
    · rename_i hstuck
      rw [Option.map_eq_none_iff, total_cons, Nat.add_sub_cancel_left] at h
      have hlast := isLast_turn hws.tail h
      intro us hdials hus
      obtain ⟨u, us', rfl, -, hbound, hrest⟩ := exists_cons_of_dials hdials
      have hu := hus.inBounds u List.mem_cons_self
      rw [hbound] at hu
      refine Nat.le_of_not_lt fun hlt => ?_
      rw [place, place, hbound, wheel_lt_iff hw hu] at hlt
      have hle := hlast us' hrest hus.tail
      have heq : place us' = place rest := by omega
      have hcount := count_le_of_stuck hws hus hbound hrest heq hstuck
      omega

/-! ### Seeking -/

/-- A setting at which the enumeration stops. -/
structure IsStop (budget : Nat) (mode : EnumerationMode) (ws : List Wheel) : Prop
    extends IsSetting budget ws where
  stops : stopsAt budget mode (total ws) = true

theorem isNext_seek : ∀ {fuel : Nat} {ws vs : List Wheel}, IsSetting budget ws →
    seek budget mode fuel ws = some vs → IsNext (IsStop budget mode) ws vs
  | fuel + 1, ws, vs, hws, h => by
    rw [seek] at h
    split at h
    · exact absurd h (by simp)
    · rename_i us hturn
      have hnext := isNext_turn hws hturn
      split at h
      · rename_i hstop
        obtain rfl := Option.some.inj h
        exact ⟨hnext.dials_eq, ⟨hnext.holds, hstop⟩, hnext.lt,
          fun us hdials hus => hnext.le us hdials hus.toIsSetting⟩
      · rename_i hpass
        have hrest := isNext_seek hnext.holds h
        refine ⟨hrest.dials_eq.trans hnext.dials_eq, hrest.holds, hnext.lt.trans hrest.lt,
          fun us' hdials hus hlt => hrest.le us' (hdials.trans hnext.dials_eq.symm) hus ?_⟩
        refine Nat.lt_of_le_of_ne (hnext.le us' hdials hus.toIsSetting hlt) fun heq => hpass ?_
        rw [← place_inj (hdials.trans hnext.dials_eq.symm) hnext.holds.inBounds hus.inBounds
          heq.symm]
        exact hus.stops

theorem isLast_seek : ∀ {fuel : Nat} {ws : List Wheel}, IsSetting budget ws →
    settings ws ≤ fuel + place ws → seek budget mode fuel ws = none →
    IsLast (IsStop budget mode) ws
  | 0, ws, hws, hfuel, _ => by
    have := place_lt_settings hws.inBounds
    omega
  | fuel + 1, ws, hws, hfuel, h => by
    rw [seek] at h
    split at h
    · rename_i hturn
      exact fun us hdials hus => isLast_turn hws hturn us hdials hus.toIsSetting
    · rename_i us hturn
      have hnext := isNext_turn hws hturn
      split at h
      · exact absurd h (by simp)
      · rename_i hpass
        have hlt := hnext.lt
        have hlast := isLast_seek hnext.holds (by rw [settings_congr hnext.dials_eq]; omega) h
        intro us' hdials hus
        refine Nat.le_of_not_lt fun hlt => hpass ?_
        have hle := hlast us' (hdials.trans hnext.dials_eq.symm) hus
        have hge := hnext.le us' hdials hus.toIsSetting hlt
        rw [← place_inj (hdials.trans hnext.dials_eq.symm) hnext.holds.inBounds hus.inBounds
          (by omega)]
        exact hus.stops

/-! ### Runs -/

theorem moveOn_cases (e : Enumeration) :
    (seek e.budget e.mode (settings e.wheels) e.wheels = none ∧
      e.moveOn = { e with exhausted := true }) ∨
    ∃ ws, seek e.budget e.mode (settings e.wheels) e.wheels = some ws ∧
      e.moveOn = { e with wheels := ws } := by
  rw [moveOn]
  cases h : seek e.budget e.mode (settings e.wheels) e.wheels with
  | none => exact .inl ⟨rfl, rfl⟩
  | some ws => exact .inr ⟨ws, rfl, rfl⟩

theorem advance_eq (e : Enumeration) : e.advance = if e.exhausted then e
    else if e.limit.any (· ≤ e.position + 1) then
      { e with position := e.position + 1, exhausted := true }
    else ({ e with position := e.position + 1 } : Enumeration).moveOn := by
  rw [advance]
  split
  · rfl
  · cases e.limit with
    | none => rfl
    | some limit => by_cases h : limit ≤ e.position + 1 <;> simp [h]

theorem next?_eq_some_iff {e rest : Enumeration} {p : Pool} :
    e.next? = some (p, rest) ↔ e.exhausted = false ∧ p = poolOf e.wheels ∧ rest = e.advance := by
  rw [next?, current?]
  cases e.exhausted with
  | true => simp
  | false => simp [eq_comm]

theorem next?_eq_none_iff {e : Enumeration} : e.next? = none ↔ e.exhausted = true := by
  rw [next?, current?]
  cases e.exhausted <;> simp

theorem take_succ (e : Enumeration) (n : Nat) : (e.take (n + 1)).1 =
    if e.exhausted then [] else poolOf e.wheels :: (e.advance.take n).1 := by
  rw [take]
  cases h : e.exhausted with
  | true => rw [next?_eq_none_iff.2 h]; rfl
  | false => rw [next?_eq_some_iff.2 ⟨h, rfl, rfl⟩]; rfl

/-- Going through an enumeration is going through the list of its pools. -/
theorem foldUntil_eq_foldlM {σ ε : Type} (f : σ → Pool → Except ε σ) : ∀ (n : Nat)
    (e : Enumeration) (s : σ), foldUntil f n e s = (e.take n).1.foldlM f s
  | 0, _, _ => rfl
  | n + 1, e, s => by
    rw [foldUntil, take_succ]
    cases h : e.exhausted with
    | true => rw [next?_eq_none_iff.2 h]; rfl
    | false =>
      rw [next?_eq_some_iff.2 ⟨h, rfl, rfl⟩]
      simp only [Bool.false_eq_true, if_false, List.foldlM_cons]
      cases f s (poolOf e.wheels) with
      | error err => rfl
      | ok s' => exact foldUntil_eq_foldlM f n e.advance s'

theorem foldAll_eq_foldlM {σ ε : Type} (e : Enumeration) (f : σ → Pool → Except ε σ) (s : σ) :
    e.foldAll f s = e.toList.foldlM f s := foldUntil_eq_foldlM f _ e s

/-! ### Settings as pools -/

section Within

variable {bound p : Pool}

/-- The dials for the pools within a bound. -/
def dialsOf (bound : Pool) : List (Model × Nat) :=
  bound.normalized.entries.map fun e => (e.1, e.2.toNat)

/-- The setting that counts a pool. -/
def settingOf (bound p : Pool) : List Wheel :=
  bound.normalized.entries.map fun e => ⟨e.1, e.2.toNat, (p.count e.1).toNat⟩

theorem dials_settingOf (bound p : Pool) : dials (settingOf bound p) = dialsOf bound := by
  rw [dials, settingOf, List.map_map]
  rfl

theorem exists_entry_of_dials (h : dials us = dialsOf bound) (hw : w ∈ us) :
    w.bound = (bound.count w.model).toNat := by
  have hmem : (w.model, w.bound) ∈ dialsOf bound := h ▸ List.mem_map_of_mem hw
  obtain ⟨e, he, heq⟩ := List.mem_map.1 hmem
  obtain ⟨hmodel, hbound⟩ := Prod.mk.inj heq
  rw [← hmodel, ← hbound, ← Pool.count_normalized, Pool.count_eq_of_mem he]

theorem ascending_of_dials (h : dials us = dialsOf bound) :
    us.Pairwise fun v w => compare v.model w.model = .lt := by
  have hasc : (dialsOf bound).Pairwise fun d e => compare d.1 e.1 = .lt :=
    bound.normalized.counts.ascending.map _ fun _ _ h => h
  rw [← h] at hasc
  exact List.pairwise_map.1 hasc

/-- The pool of a setting records the counts that are not zero. -/
theorem entries_poolOf (h : dials us = dialsOf bound) (hus : InBounds us) :
    (poolOf us).IsNormal ∧ (poolOf us).entries =
      (us.filter (·.count != 0)).map fun w => (w.model, UInt32.ofNat w.count) := by
  have hasc : ((us.filter (·.count != 0)).map fun w => (w.model, UInt32.ofNat w.count)).Pairwise
      fun e f => compare e.1 f.1 = .lt :=
    ((ascending_of_dials h).sublist List.filter_sublist).map _ fun _ _ h => h
  have hne : ∀ e ∈ (us.filter (·.count != 0)).map fun w => (w.model, UInt32.ofNat w.count),
      e.2 ≠ 0 := by
    intro e he hzero
    obtain ⟨w, hw, rfl⟩ := List.mem_map.1 he
    obtain ⟨hmem, hpos⟩ := List.mem_filter.1 hw
    have hle := hus w hmem
    have hlt := (bound.count w.model).toNat_lt
    rw [exists_entry_of_dials h hmem] at hle
    have hcount := congrArg UInt32.toNat hzero
    rw [UInt32.toNat_ofNat_of_lt' (by rw [UInt32.size]; omega), UInt32.toNat_zero] at hcount
    exact bne_iff_ne.1 hpos hcount
  rw [poolOf, Pool.ofPairs_eq hasc hne]
  exact ⟨hne, rfl⟩

theorem toNat_ofNat_count (h : dials us = dialsOf bound) (hus : InBounds us) (hw : w ∈ us) :
    (UInt32.ofNat w.count).toNat = w.count := by
  have hle := hus w hw
  have hlt := (bound.count w.model).toNat_lt
  rw [exists_entry_of_dials h hw] at hle
  exact UInt32.toNat_ofNat_of_lt' (by rw [UInt32.size]; omega)

theorem isSubset_poolOf (h : dials us = dialsOf bound) (hus : InBounds us) :
    (poolOf us).isSubset bound = true := by
  rw [Pool.isSubset, (entries_poolOf h hus).2, List.all_eq_true]
  intro e he
  obtain ⟨w, hw, rfl⟩ := List.mem_map.1 he
  have hmem := (List.mem_filter.1 hw).1
  refine decide_eq_true (UInt32.le_iff_toNat_le.2 ?_)
  rw [toNat_ofNat_count h hus hmem, ← exists_entry_of_dials h hmem]
  exact hus w hmem

theorem sum_filter_counts : ∀ {us : List Wheel},
    (∀ w ∈ us, (UInt32.ofNat w.count).toNat = w.count) →
    sumOf ((us.filter (·.count != 0)).map fun w => (UInt32.ofNat w.count).toNat) = total us
  | [], _ => rfl
  | w :: rest, h => by
    have ih := sum_filter_counts fun v hv => h v (List.mem_cons_of_mem _ hv)
    rw [total_cons, List.filter_cons]
    split
    · rw [List.map_cons, h w List.mem_cons_self]
      exact congrArg (w.count + ·) ih
    · rename_i hzero
      rw [ih, Nat.eq_zero_of_not_pos fun hpos => hzero (bne_iff_ne.2 hpos.ne'), Nat.zero_add]

theorem totalAtoms_poolOf (h : dials us = dialsOf bound) (hus : InBounds us) :
    (poolOf us).totalAtoms = total us := by
  rw [Pool.totalAtoms, (entries_poolOf h hus).2, List.map_map]
  exact sum_filter_counts fun w hw => toNat_ofNat_count h hus hw

theorem inBounds_settingOf (h : p.isSubset bound = true) : InBounds (settingOf bound p) := by
  intro w hw
  obtain ⟨e, he, rfl⟩ := List.mem_map.1 hw
  have hle := Pool.isSubset_iff.1 h e.1
  rw [← Pool.count_normalized bound, Pool.count_eq_of_mem he] at hle
  exact UInt32.le_iff_toNat_le.1 hle

theorem poolOf_settingOf (hp : p.IsNormal) (h : p.isSubset bound = true) :
    poolOf (settingOf bound p) = p := by
  obtain ⟨hnormal, hentries⟩ := entries_poolOf (dials_settingOf bound p) (inBounds_settingOf h)
  refine Pool.ext_count hnormal hp fun m => ?_
  by_cases hm : p.count m = 0
  · by_contra hne
    rw [hm] at hne
    have hmem := Pool.mem_entries_of_count_ne_zero hne
    rw [hentries] at hmem
    obtain ⟨w, hw, heq⟩ := List.mem_map.1 hmem
    obtain ⟨hw, hpos⟩ := List.mem_filter.1 hw
    obtain ⟨e, he, rfl⟩ := List.mem_map.1 hw
    obtain rfl : e.1 = m := congrArg Prod.fst heq
    exact bne_iff_ne.1 hpos (by rw [hm, UInt32.toNat_zero])
  · have hpos : (p.count m).toNat ≠ 0 := fun h => hm (UInt32.toNat_inj.1 h)
    have hbound : bound.normalized.count m ≠ 0 := by
      rw [Pool.count_normalized]
      intro h0
      have hle := UInt32.le_iff_toNat_le.1 (Pool.isSubset_iff.1 h m)
      rw [h0, UInt32.toNat_zero] at hle
      omega
    have hw := List.mem_map_of_mem (f := fun e : Model × UInt32 =>
      (⟨e.1, e.2.toNat, (p.count e.1).toNat⟩ : Wheel)) (Pool.mem_entries_of_count_ne_zero hbound)
    refine Pool.count_eq_of_mem ?_
    rw [hentries]
    refine List.mem_map.2 ⟨_, List.mem_filter.2 ⟨hw, bne_iff_ne.2 hpos⟩, ?_⟩
    exact Prod.ext rfl UInt32.ofNat_toNat

/-! ### The pools within a bound -/

theorem isSetting_reset (budget : Nat) : ∀ (ws : List Wheel),
    IsSetting budget (ws.map Wheel.reset) ∧ place (ws.map Wheel.reset) = 0 ∧
      dials (ws.map Wheel.reset) = dials ws
  | [] => ⟨⟨fun _ h => absurd h List.not_mem_nil, Nat.zero_le _⟩, rfl, rfl⟩
  | w :: rest => by
    obtain ⟨⟨hin, htotal⟩, hplace, hdials⟩ := isSetting_reset budget rest
    refine ⟨⟨?_, ?_⟩, ?_, congrArg (List.cons (w.model, w.bound)) hdials⟩
    · intro v hv
      rcases List.mem_cons.1 hv with rfl | hv
      · exact Nat.zero_le _
      · exact hin v hv
    · rw [List.map_cons, total_cons]
      show 0 + _ ≤ budget
      omega
    · rw [List.map_cons, place, hplace]
      rfl

theorem le_of_stopsAt {n : Nat} (h : stopsAt budget mode n = true) : n ≤ budget := by
  cases mode with
  | max => exact (of_decide_eq_true h).2
  | exact => exact (of_decide_eq_true h).le

theorem stopsAt_pos {n : Nat} (hbudget : budget ≠ 0) (h : stopsAt budget mode n = true) :
    0 < n := by
  cases mode with
  | max => exact (of_decide_eq_true h).1
  | exact =>
    obtain rfl : n = budget := of_decide_eq_true h
    exact Nat.pos_of_ne_zero hbudget

theorem dials_wheels (bound : Pool) :
    dials (bound.normalized.entries.map fun e => ⟨e.1, e.2.toNat, 0⟩) = dialsOf bound := by
  rw [dials, List.map_map]
  rfl

theorem pool_of_isStop (hdials : dials us = dialsOf bound) (hus : IsStop budget mode us) :
    (poolOf us).IsNormal ∧ (poolOf us).isSubset bound = true ∧
      stopsAt budget mode (poolOf us).totalAtoms = true := by
  rw [totalAtoms_poolOf hdials hus.inBounds]
  exact ⟨(entries_poolOf hdials hus.inBounds).1, isSubset_poolOf hdials hus.inBounds, hus.stops⟩

theorem isStop_settingOf (hp : p.IsNormal) (h : p.isSubset bound = true)
    (hstop : stopsAt budget mode p.totalAtoms = true) : IsStop budget mode (settingOf bound p) := by
  have htotal := totalAtoms_poolOf (dials_settingOf bound p) (inBounds_settingOf h)
  rw [poolOf_settingOf hp h] at htotal
  rw [htotal] at hstop
  exact ⟨⟨inBounds_settingOf h, le_of_stopsAt hstop⟩, hstop⟩

end Within

end Muster.Enumeration
