import Mathlib.Tactic
import TlpBridge.Stream.Parameters

/-!
# Legal parameters

What the checks of a parameter block guarantee, as one proposition.
-/
namespace TlpBridge

/-- A cascade of rules reports nothing if each of them is kept. -/
theorem rule_eq_none_iff {α : Type} (broken : Prop) [Decidable broken] (fault : α)
    (rest : Option α) :
    (if broken then some fault else rest) = none ↔ ¬ broken ∧ rest = none := by
  by_cases h : broken <;> simp [h]

namespace Parameters

/-- A parameter block that the checks let pass. -/
structure Legal (p : Parameters) : Prop where
  dwords : p.dataWidth % 32 = 0
  wide : 256 ≤ p.dataWidth
  marked : 1 ≤ p.userWidth
  limits : ∀ param : LimitedParam, 0 < param.value p ∧ param.value p ≤ param.limit
  boundary : 4 ≤ p.completionBoundary
  power : isPowerOfTwo p.completionBoundary
  granularity : p.maxReadBytes % p.completionBoundary = 0
  function : p.defaultPf < 8 ∧ p.defaultVf < 2048

theorem limitFault?_eq_none_iff (p : Parameters) (param : LimitedParam) :
    p.limitFault? param = none ↔ 0 < param.value p ∧ param.value p ≤ param.limit := by
  unfold limitFault?
  by_cases inside : 0 < param.value p ∧ param.value p ≤ param.limit
  · simp [inside]
  · simp [inside]

theorem limitFaults_eq_none_iff (p : Parameters) :
    LimitedParam.all.findSome? p.limitFault? = none ↔
      ∀ param : LimitedParam, 0 < param.value p ∧ param.value p ≤ param.limit := by
  rw [List.findSome?_eq_none_iff]
  constructor
  · intro none_ param
    have listed : param ∈ LimitedParam.all := by cases param <;> decide
    exact (p.limitFault?_eq_none_iff param).1 (none_ param listed)
  · intro limits param _
    exact (p.limitFault?_eq_none_iff param).2 (limits param)

theorem fault?_eq_none_iff (p : Parameters) : p.fault? = none ↔ p.Legal := by
  unfold fault?
  simp only [rule_eq_none_iff, Option.orElse_eq_orElse, Option.orElse_eq_or, Option.or_eq_none_iff,
    limitFaults_eq_none_iff, and_true, not_or, not_not, not_lt, UInt8.not_le, UInt16.not_le]
  constructor
  · rintro ⟨⟨dwords, wide⟩, user, limits, ⟨boundary, power⟩, granularity, function⟩
    exact ⟨dwords, wide, Nat.one_le_iff_ne_zero.2 user, limits, boundary, power, granularity,
      function⟩
  · rintro ⟨dwords, wide, marked, limits, boundary, power, granularity, function⟩
    exact ⟨⟨dwords, wide⟩, Nat.one_le_iff_ne_zero.1 marked, limits, ⟨boundary, power⟩,
      granularity, function⟩

end Parameters

namespace ValidParameters

theorem legal (c : ValidParameters) : c.params.Legal := c.params.fault?_eq_none_iff.1 c.valid

end ValidParameters

end TlpBridge
