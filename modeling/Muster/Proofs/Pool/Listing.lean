import Muster.Proofs.Pool.Settings

/-!
What an enumeration lists. Seeking goes from each stop to the next one in the list of all stops
(`seek_eq`), so `position` always is the place in the list where the enumeration stands
(`StandsAt`), whether it was moved on, limited at the start or sent back.

Main statements: `seek_eq`, `StandsAt.advance`, `standsAt_restart`, `StandsAt.take`, `seeks_seek`,
`take_limited`.
-/

namespace Muster

/-- The members of a list up to a limit, if there is one. -/
def upTo {α : Type} (limit : Option Nat) (xs : List α) : List α := limit.elim xs xs.take

section UpTo

variable {α β : Type} {limit : Option Nat} {xs : List α} {k : Nat}

theorem getElem?_upTo (h : limit.any (· ≤ k) = false) : (upTo limit xs)[k]? = xs[k]? := by
  cases limit with
  | none => rfl
  | some limit =>
    have hlt : k < limit := by simpa using h
    exact List.getElem?_take_of_lt hlt

theorem getElem?_upTo_of_le (h : limit.any (· ≤ k) = true) : (upTo limit xs)[k]? = none := by
  cases limit with
  | none => simp at h
  | some limit =>
    have hle : limit ≤ k := by simpa using h
    exact List.getElem?_take_eq_none hle

@[simp] theorem upTo_nil (limit : Option Nat) : upTo limit ([] : List α) = [] := by
  cases limit with
  | none => rfl
  | some limit => exact List.take_nil

theorem upTo_map (f : α → β) (limit : Option Nat) (xs : List α) :
    upTo limit (xs.map f) = (upTo limit xs).map f := by
  cases limit with
  | none => rfl
  | some limit => exact (List.map_take ..).symm

/-- A number, but no more than the limit, if there is one. -/
def limitTo (limit : Option Nat) (n : Nat) : Nat := limit.elim n fun limit => min limit n

theorem length_upTo (limit : Option Nat) (xs : List α) :
    (upTo limit xs).length = limitTo limit xs.length := by
  cases limit with
  | none => rfl
  | some limit => exact List.length_take

theorem upTo_sublist (limit : Option Nat) (xs : List α) : (upTo limit xs).Sublist xs := by
  cases limit with
  | none => exact .refl _
  | some limit => exact List.take_sublist _ _

/-- A larger limit leaves out nothing. -/
theorem upTo_sublist_upTo {limit' : Option Nat} (h : ∀ n ∈ limit', ∃ k ∈ limit, k ≤ n) :
    (upTo limit xs).Sublist (upTo limit' xs) := by
  cases limit' with
  | none => exact upTo_sublist limit xs
  | some n =>
    obtain ⟨k, rfl, hle⟩ := h n rfl
    exact List.take_sublist_take_left hle

end UpTo

namespace Enumeration

variable {budget : Nat} {mode : EnumerationMode} {bound : Pool} {ws : List Wheel}

/-! ### Seeking in the list -/

/-- Seeking from a setting that as many as `k` stops have reached goes to the next stop. -/
theorem seek_eq (hbudget : budget ≠ 0) (hws : IsSetting budget ws)
    (hdials : dials ws = dialsOf bound) {k : Nat}
    (hk : ∀ i (h : i < (stops bound budget mode).length),
      place (stops bound budget mode)[i] ≤ place ws ↔ i < k) :
    seek budget mode (settings ws) ws = (stops bound budget mode)[k]? := by
  have hmem : ∀ us, us ∈ stops bound budget mode ↔
      dials us = dialsOf bound ∧ IsStop budget mode us := fun us => mem_stops_iff hbudget
  have hstop : ∀ i (h : i < (stops bound budget mode).length),
      dials (stops bound budget mode)[i] = dials ws ∧
        IsStop budget mode (stops bound budget mode)[i] := by
    intro i h
    rw [hdials]
    exact (hmem _).1 (List.getElem_mem h)
  cases hseek : seek budget mode (settings ws) ws with
  | none =>
    have hlast := isLast_seek hws (Nat.le_add_right ..) hseek
    refine (List.getElem?_eq_none_iff.2 (Nat.le_of_not_lt fun h => ?_)).symm
    obtain ⟨hdials', hus⟩ := hstop k h
    exact lt_irrefl k ((hk k h).1 (hlast _ hdials' hus))
  | some vs =>
    have hnext := isNext_seek hws hseek
    obtain ⟨j, hj, rfl⟩ :=
      List.mem_iff_getElem.1 ((hmem vs).2 ⟨hnext.dials_eq.trans hdials, hnext.holds⟩)
    have hkj : k ≤ j := Nat.le_of_not_lt fun h => absurd ((hk j hj).2 h) hnext.lt.not_ge
    rcases Nat.lt_or_eq_of_le hkj with hlt | rfl
    · -- the stop at `k` would come between the setting and the next stop
      have hk' : k < (stops bound budget mode).length := by omega
      obtain ⟨hdials', hus⟩ := hstop k hk'
      have hle := hnext.le _ hdials' hus (Nat.lt_of_not_le (mt (hk k hk').1 (lt_irrefl k)))
      have hless := List.pairwise_iff_getElem.1 (pairwise_stops bound budget mode) k j hk' hj hlt
      omega
    · exact (List.getElem?_eq_getElem hj).symm

/-- From the setting of zeros the first stop comes next. -/
theorem seek_reset (hbudget : budget ≠ 0) (hdials : dials ws = dialsOf bound) :
    seek budget mode (settings ws) (ws.map Wheel.reset) = (stops bound budget mode)[0]? := by
  obtain ⟨hset, hplace, hreset⟩ := isSetting_reset budget ws
  rw [← settings_congr hreset]
  refine seek_eq hbudget hset (hreset.trans hdials) fun i h => ?_
  have := place_pos (List.getElem_mem h)
  omega

/-- From a stop the one after it comes next. -/
theorem seek_stop (hbudget : budget ≠ 0) {k : Nat} (h : (stops bound budget mode)[k]? = some ws) :
    seek budget mode (settings ws) ws = (stops bound budget mode)[k + 1]? := by
  obtain ⟨hk, rfl⟩ := List.getElem?_eq_some_iff.1 h
  obtain ⟨hdials, hus⟩ := (mem_stops_iff hbudget).1 (List.getElem_mem hk)
  refine seek_eq hbudget hus.toIsSetting hdials fun i hi => ?_
  have hless := List.pairwise_iff_getElem.1 (pairwise_stops bound budget mode)
  rcases Nat.lt_trichotomy i k with hik | rfl | hik
  · exact iff_of_true (hless i k hi hk hik).le (by omega)
  · exact iff_of_true le_rfl (by omega)
  · exact iff_of_false (hless k i hk hi hik).not_ge (by omega)

/-! ### Where an enumeration stands -/

/-- The enumeration goes through the pools within `bound` and stands at the setting that its
position says, or past the last one. -/
structure StandsAt (bound : Pool) (budget : Nat) (mode : EnumerationMode) (limit : Option Nat)
    (e : Enumeration) : Prop where
  budget_eq : e.budget = budget
  mode_eq : e.mode = mode
  limit_eq : e.limit = limit
  dials_eq : dials e.wheels = dialsOf bound
  isSetting : IsSetting budget e.wheels
  getElem?_eq : (upTo limit (stops bound budget mode))[e.position]? =
    if e.exhausted then none else some e.wheels

section StandsAt

variable {limit : Option Nat} {e : Enumeration}

/-- An enumeration that has moved on to its position stands there. -/
theorem standsAt_moveOn (hdials : dials e.wheels = dialsOf bound)
    (hset : IsSetting e.budget e.wheels) (hlive : e.exhausted = false)
    (hlimit : e.limit.any (· ≤ e.position) = false)
    (hseek : seek e.budget e.mode (settings e.wheels) e.wheels =
      (stops bound e.budget e.mode)[e.position]?) :
    StandsAt bound e.budget e.mode e.limit e.moveOn := by
  rw [← getElem?_upTo hlimit] at hseek
  rcases moveOn_cases e with ⟨hnone, heq⟩ | ⟨ws, hsome, heq⟩
  · rw [heq]
    exact ⟨rfl, rfl, rfl, hdials, hset, hseek.symm.trans hnone⟩
  · have hnext := isNext_seek hset hsome
    rw [heq]
    refine ⟨rfl, rfl, rfl, hnext.dials_eq.trans hdials, hnext.holds.toIsSetting, ?_⟩
    rw [hlive]
    exact hseek.symm.trans hsome

theorem StandsAt.getElem?_stops (h : StandsAt bound budget mode limit e)
    (hlive : e.exhausted = false) : (stops bound budget mode)[e.position]? = some e.wheels := by
  have hstands := h.getElem?_eq
  rw [hlive] at hstands
  cases hany : limit.any (· ≤ e.position) with
  | true =>
    rw [getElem?_upTo_of_le hany] at hstands
    exact absurd hstands (by simp)
  | false => rwa [getElem?_upTo hany] at hstands

/-- Whatever its limit, the enumeration goes through the pools within `bound`, and until it is
exhausted it stands at the setting that its position says. -/
structure GoesThrough (bound : Pool) (budget : Nat) (mode : EnumerationMode) (e : Enumeration) :
    Prop where
  budget_eq : e.budget = budget
  mode_eq : e.mode = mode
  dials_eq : dials e.wheels = dialsOf bound
  isSetting : IsSetting budget e.wheels
  getElem?_eq : e.exhausted = false → (stops bound budget mode)[e.position]? = some e.wheels

theorem StandsAt.goesThrough (h : StandsAt bound budget mode limit e) :
    GoesThrough bound budget mode e :=
  ⟨h.budget_eq, h.mode_eq, h.dials_eq, h.isSetting, h.getElem?_stops⟩

/-- Moving on goes to the next place of the list, up to the limit. -/
theorem GoesThrough.standsAt_advance (h : GoesThrough bound budget mode e)
    (hlive : e.exhausted = false) : StandsAt bound budget mode e.limit e.advance := by
  have hstop := h.getElem?_eq hlive
  have hbudget : budget ≠ 0 := by
    rintro rfl
    simp [stops_of_budget_eq_zero] at hstop
  obtain ⟨rfl, rfl, hdials, hset, -⟩ := h
  rw [advance_eq, if_neg (by simp [hlive])]
  split
  · rename_i hlimit
    exact ⟨rfl, rfl, rfl, hdials, hset, getElem?_upTo_of_le hlimit⟩
  · rename_i hlimit
    rw [Bool.not_eq_true] at hlimit
    exact standsAt_moveOn (e := { e with position := e.position + 1 }) hdials hset hlive hlimit
      (seek_stop hbudget hstop)

theorem advance_of_exhausted (hended : e.exhausted = true) : e.advance = e := by
  rw [advance_eq, if_pos hended]

theorem StandsAt.advance (h : StandsAt bound budget mode limit e) :
    StandsAt bound budget mode limit e.advance := by
  cases hexhausted : e.exhausted with
  | true => rwa [advance_of_exhausted hexhausted]
  | false =>
    rw [← h.limit_eq]
    exact h.goesThrough.standsAt_advance hexhausted

theorem position_moveOn (e : Enumeration) : e.moveOn.position = e.position := by
  rcases moveOn_cases e with ⟨-, heq⟩ | ⟨ws, -, heq⟩
  · rw [heq]
  · rw [heq]

theorem position_advance (hlive : e.exhausted = false) : e.advance.position = e.position + 1 := by
  rw [advance_eq, if_neg (by simp [hlive])]
  split
  · rfl
  · exact position_moveOn { e with position := e.position + 1 }

/-- Going back goes to the first place of the list. -/
theorem standsAt_restart (h : dials e.wheels = dialsOf bound) :
    StandsAt bound e.budget e.mode e.limit e.restart ∧ e.restart.position = 0 := by
  obtain ⟨hset, -, hreset⟩ := isSetting_reset e.budget e.wheels
  rw [restart]
  split
  · rename_i hnothing
    refine ⟨⟨rfl, rfl, rfl, hreset.trans h, hset, ?_⟩, rfl⟩
    simp only [Bool.or_eq_true, List.isEmpty_iff, beq_iff_eq] at hnothing
    show (upTo e.limit (stops bound e.budget e.mode))[0]? = none
    rcases hnothing with (hwheels | hbudget) | hlimit
    · have hnone : stops bound e.budget e.mode = [] := by
        rw [stops, ← h, hwheels]
        rfl
      simp [hnone]
    · simp [hbudget, stops_of_budget_eq_zero]
    · simp [hlimit, upTo]
  · rename_i hsome
    simp only [Bool.or_eq_true, not_or, beq_iff_eq] at hsome
    have hlimit : e.limit.any (· ≤ 0) = false := by
      cases hlimit : e.limit with
      | none => rfl
      | some limit =>
        have hpos : limit ≠ 0 := fun hzero => hsome.2 (by rw [hlimit, hzero])
        simpa [Nat.pos_iff_ne_zero] using hpos
    have hseek : seek e.budget e.mode (settings (e.wheels.map Wheel.reset))
        (e.wheels.map Wheel.reset) = (stops bound e.budget e.mode)[0]? := by
      rw [settings_congr hreset]
      exact seek_reset hsome.1.2 h
    exact ⟨standsAt_moveOn (e := { e with
      wheels := e.wheels.map Wheel.reset, position := 0, exhausted := false })
      (hreset.trans h) hset rfl hlimit hseek, position_moveOn _⟩

theorem StandsAt.restart (h : StandsAt bound budget mode limit e) :
    StandsAt bound budget mode limit e.restart ∧ e.restart.position = 0 := by
  obtain ⟨rfl, rfl, rfl, hdials, -, -⟩ := h
  exact standsAt_restart hdials

theorem standsAt_within (bound : Pool) (budget : Nat) (mode : EnumerationMode) :
    StandsAt bound budget mode none (within bound budget mode) ∧
      (within bound budget mode).position = 0 :=
  standsAt_restart (e := {
    wheels := bound.normalized.entries.map fun e => ⟨e.1, e.2.toNat, 0⟩
    budget, mode, limit := none, position := 0, exhausted := false }) (dials_wheels bound)

/-- An enumeration with a limit, if there is one. -/
def limited (e : Enumeration) : Option Nat → Enumeration
  | none => e
  | some limit => e.withLimit limit

/-- A limit that is set at the start leaves the enumeration at its start. -/
theorem standsAt_limited (bound : Pool) (budget : Nat) (mode : EnumerationMode)
    (limit : Option Nat) :
    StandsAt bound budget mode limit ((within bound budget mode).limited limit) ∧
      ((within bound budget mode).limited limit).position = 0 := by
  obtain ⟨h, hposition⟩ := standsAt_within bound budget mode
  have hstands := h.getElem?_eq
  rw [hposition] at hstands
  cases limit with
  | none => exact ⟨h, hposition⟩
  | some limit =>
    refine ⟨⟨h.budget_eq, h.mode_eq, rfl, h.dials_eq, h.isSetting, ?_⟩, hposition⟩
    show ((stops bound budget mode).take limit)[(within bound budget mode).position]? =
      if (within bound budget mode).exhausted || limit == 0 then none
      else some (within bound budget mode).wheels
    rw [hposition]
    cases limit with
    | zero => simp
    | succ limit =>
      rw [List.getElem?_take_of_lt (Nat.succ_pos limit)]
      simpa [upTo] using hstands

/-- The enumerations that calls lead to. Taking a pool moves on, too. -/
inductive Visits (start : Enumeration) : Enumeration → Prop
  | start : Visits start start
  | advance {e : Enumeration} : Visits start e → Visits start e.advance
  | restart {e : Enumeration} : Visits start e → Visits start e.restart

/-- Calls lead from one place of the list to another. -/
theorem Visits.standsAt {start : Enumeration} (h : Visits start e)
    (hstart : StandsAt bound budget mode limit start) : StandsAt bound budget mode limit e := by
  induction h with
  | start => exact hstart
  | advance _ ih => exact ih.advance
  | restart _ ih => exact ih.restart.1

end StandsAt

/-! ### What is taken -/

/-- An enumeration gives the pools of its list from its position on, and is exhausted as soon as all
have been taken. -/
theorem StandsAt.take {limit : Option Nat} {e : Enumeration}
    (h : StandsAt bound budget mode limit e) (n : Nat) :
    (e.take n).1 = ((upTo limit (poolsWithin bound budget mode)).drop e.position).take n ∧
    ((e.take n).2.exhausted = true ↔
      (upTo limit (poolsWithin bound budget mode)).length ≤ e.position + n) := by
  induction n generalizing e with
  | zero =>
    refine ⟨rfl, ?_⟩
    rw [poolsWithin, upTo_map, List.length_map, Nat.add_zero, ← List.getElem?_eq_none_iff,
      h.getElem?_eq]
    cases hexhausted : e.exhausted <;> simp [Enumeration.take, hexhausted]
  | succ n ih =>
    have hstands := congrArg (Option.map poolOf) h.getElem?_eq
    rw [← List.getElem?_map, ← upTo_map, ← poolsWithin] at hstands
    cases hexhausted : e.exhausted with
    | true =>
      rw [hexhausted] at hstands
      have hle := List.getElem?_eq_none_iff.1 hstands
      rw [Enumeration.take, next?_eq_none_iff.2 hexhausted, List.drop_eq_nil_of_le hle]
      exact ⟨rfl, iff_of_true hexhausted (by omega)⟩
    | false =>
      rw [hexhausted] at hstands
      obtain ⟨hlt, hget⟩ := List.getElem?_eq_some_iff.1 hstands
      have ih := ih h.advance
      rw [position_advance hexhausted] at ih
      rw [Enumeration.take, next?_eq_some_iff.2 ⟨hexhausted, rfl, rfl⟩,
        List.drop_eq_getElem_cons hlt, hget, List.take_succ_cons, ← ih.1]
      refine ⟨rfl, ih.2.trans ?_⟩
      omega

/-- The list of an enumeration is whole. -/
theorem toList_limited (bound : Pool) (budget : Nat) (mode : EnumerationMode)
    (limit : Option Nat) : ((within bound budget mode).limited limit).toList =
      upTo limit (poolsWithin bound budget mode) := by
  obtain ⟨h, hposition⟩ := standsAt_limited bound budget mode limit
  rw [toList, (h.take _).1, hposition, List.drop_zero]
  refine List.take_of_length_le ((upTo_sublist _ _).length_le.trans ?_)
  rw [poolsWithin, List.length_map]
  exact length_stops_le h.dials_eq

/-! ### Turning comes to an end -/

/-- Turning until the enumeration stops, however many turns it takes. -/
inductive Seeks (budget : Nat) (mode : EnumerationMode) : List Wheel → Option (List Wheel) → Prop
  | ended {ws : List Wheel} (h : turn budget (total ws) ws = none) : Seeks budget mode ws none
  | found {ws vs : List Wheel} (h : turn budget (total ws) ws = some vs)
    (hstop : stopsAt budget mode (total vs) = true) : Seeks budget mode ws (some vs)
  | passed {ws us : List Wheel} {r : Option (List Wheel)} (h : turn budget (total ws) ws = some us)
    (hpass : stopsAt budget mode (total us) = false) (hseek : Seeks budget mode us r) :
    Seeks budget mode ws r

theorem seeks_seek {fuel : Nat} (hws : IsSetting budget ws) (hfuel : settings ws ≤ fuel + place ws) :
    Seeks budget mode ws (seek budget mode fuel ws) := by
  induction fuel generalizing ws with
  | zero =>
    have := place_lt_settings hws.inBounds
    omega
  | succ fuel ih =>
    rw [seek]
    cases hturn : turn budget (total ws) ws with
    | none => exact .ended hturn
    | some us =>
      have hnext := isNext_turn hws hturn
      have hplace := hnext.lt
      cases hstop : stopsAt budget mode (total us) with
      | true => simpa [hstop] using Seeks.found hturn hstop
      | false =>
        simp only [hstop, Bool.false_eq_true, if_false]
        refine .passed hturn hstop (ih hnext.holds ?_)
        rw [settings_congr hnext.dials_eq]
        omega

/-- Moving on and going back come to an end, with what the bounded number of turns gives. -/
def Halts (e : Enumeration) : Prop := ∀ ws, ws = e.wheels ∨ ws = e.wheels.map Wheel.reset →
  Seeks e.budget e.mode ws (seek e.budget e.mode (settings ws) ws)

theorem StandsAt.halts {limit : Option Nat} {e : Enumeration}
    (h : StandsAt bound budget mode limit e) : e.Halts := by
  rintro ws (rfl | rfl)
  · exact seeks_seek (h.budget_eq ▸ h.isSetting) (Nat.le_add_right ..)
  · exact seeks_seek (isSetting_reset e.budget e.wheels).1 (Nat.le_add_right ..)

/-! ### The whole list -/

/-- An enumeration that goes through the pools within a bound, in either mode and with a limit or
without, comes to an end each time it is moved on or sent back, and gives the pools that the budget
admits, up to the limit, one after the other in the order of the odometer. Wherever it has got to,
the rest of the list is still to come, and sent back it gives the whole list again. With room for
all instances of the bound the pools are as many as there are combinations. -/
theorem take_limited (bound : Pool) (budget : Nat) (mode : EnumerationMode) :
    ListsPools bound budget mode (poolsWithin bound budget mode) ∧
    (∀ (limit : Option Nat) (n : Nat),
      (((within bound budget mode).limited limit).take n).1 =
        (upTo limit (poolsWithin bound budget mode)).take n ∧
      ((((within bound budget mode).limited limit).take n).2.exhausted = true ↔
        (upTo limit (poolsWithin bound budget mode)).length ≤ n)) ∧
    (∀ (limit : Option Nat) (e : Enumeration),
      Visits ((within bound budget mode).limited limit) e → e.Halts ∧ ∀ n,
        (e.take n).1 = ((upTo limit (poolsWithin bound budget mode)).drop e.position).take n ∧
        (e.restart.take n).1 = (upTo limit (poolsWithin bound budget mode)).take n) ∧
    (mode = .max → bound.totalAtoms ≤ budget →
      productOf (bound.entries.map fun e => e.2.toNat + 1) ≤ tallyLimit →
      (poolsWithin bound budget mode).length = totalCombinations bound) := by
  refine ⟨listsPools_poolsWithin bound budget mode, fun limit n => ?_, fun limit e he => ?_, ?_⟩
  · obtain ⟨hstart, hposition⟩ := standsAt_limited bound budget mode limit
    have htake := hstart.take n
    rwa [hposition, List.drop_zero, Nat.zero_add] at htake
  · have hstands := he.standsAt (standsAt_limited bound budget mode limit).1
    obtain ⟨hback, hposition⟩ := hstands.restart
    refine ⟨hstands.halts, fun n => ⟨(hstands.take n).1, ?_⟩⟩
    rw [(hback.take n).1, hposition, List.drop_zero]
  · rintro rfl hroom hfits
    rw [totalCombinations_eq hfits, ← length_poolsWithin hroom, Nat.add_sub_cancel]

def docksAndRover : Pool := .ofPairs [(⟨"Dock"⟩, 2), (⟨"Rover"⟩, 1)]

-- The docks turn faster than the rover, and two of three instances fit the budget.
example : poolsWithin docksAndRover 2 .max = [.ofPairs [(⟨"Dock"⟩, 1)], .ofPairs [(⟨"Dock"⟩, 2)],
    .ofPairs [(⟨"Rover"⟩, 1)], .ofPairs [(⟨"Dock"⟩, 1), (⟨"Rover"⟩, 1)]] := by decide +kernel

/-- Two docks and a rover, at most four pools: moved on twice, sent back and moved on once more. -/
theorem take_limited_docksAndRover :
    ∃ start e : Enumeration, start = (within docksAndRover 3 .max).limited (some 4) ∧
      Visits start e ∧ e = start.advance.advance.restart.advance ∧ e.position = 1 ∧ e.Halts ∧
      (e.take 3).1 = ((poolsWithin docksAndRover 3 .max).take 4).tail ∧
      (e.restart.take 5).1 = (poolsWithin docksAndRover 3 .max).take 4 ∧
      (poolsWithin docksAndRover 3 .max).length = totalCombinations docksAndRover ∧
      totalCombinations docksAndRover = 5 := by
  obtain ⟨-, -, hvisits, hcount⟩ := take_limited docksAndRover 3 .max
  obtain ⟨hhalts, htake⟩ := hvisits (some 4) _ (.advance (.restart (.advance (.advance .start))))
  refine ⟨_, _, rfl, .advance (.restart (.advance (.advance .start))), rfl, by decide +kernel,
    hhalts, ?_, ?_, hcount rfl (by decide +kernel) (by decide +kernel), by decide +kernel⟩
  · exact (htake 3).1.trans (by decide +kernel)
  · exact (htake 5).2.trans (by decide +kernel)

end Enumeration
end Muster
