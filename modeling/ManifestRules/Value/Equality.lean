import ManifestRules.Value
/-!
# Equality of values

Two values are equal if they have the same form and equal parts. So it can be decided whether a
decoded value is the expected one.
-/

namespace ManifestRules

namespace Value

mutual
/-- The same form and equal parts. -/
def same : Value → Value → Bool
  | .null, .null => true
  | .bool a, .bool b => a == b
  | .number m, .number n => decide (m = n)
  | .string s, .string t => s == t
  | .sequence xs, .sequence ys => sameItems xs ys
  | .mapping xs, .mapping ys => sameEntries xs ys
  | .tagged s v, .tagged t w => decide (s = t) && v.same w
  | _, _ => false
termination_by structural v => v
/-- Items that are the same, place by place. -/
def sameItems : List Value → List Value → Bool
  | [], [] => true
  | v :: vs, w :: ws => v.same w && sameItems vs ws
  | _, _ => false
termination_by structural vs => vs
/-- Entries that are the same, place by place. -/
def sameEntries : List (Value × Value) → List (Value × Value) → Bool
  | [], [] => true
  | (k, v) :: es, (l, w) :: fs => k.same l && v.same w && sameEntries es fs
  | _, _ => false
termination_by structural es => es
end

mutual
/-- Values are the same if they are equal. -/
theorem same_iff (v w : Value) : v.same w = true ↔ v = w := by
  match v with
  | .null | .bool _ | .number _ | .string _ => cases w <;> simp [same]
  | .sequence xs =>
    cases w with
    | sequence ys => rw [same, sameItems_iff xs ys, sequence.injEq]
    | _ => simp [same]
  | .mapping xs =>
    cases w with
    | mapping ys => rw [same, sameEntries_iff xs ys, mapping.injEq]
    | _ => simp [same]
  | .tagged s v =>
    cases w with
    | tagged t w => rw [same, Bool.and_eq_true, decide_eq_true_iff, same_iff v w, tagged.injEq]
    | _ => simp [same]
/-- Items are the same if they are equal. -/
theorem sameItems_iff (vs ws : List Value) : sameItems vs ws = true ↔ vs = ws := by
  match vs, ws with
  | [], [] | [], _ :: _ | _ :: _, [] => simp [sameItems]
  | v :: vs, w :: ws =>
    rw [sameItems, Bool.and_eq_true, same_iff v w, sameItems_iff vs ws, List.cons.injEq]
/-- Entries are the same if they are equal. -/
theorem sameEntries_iff (es fs : List (Value × Value)) : sameEntries es fs = true ↔ es = fs := by
  match es, fs with
  | [], [] | [], _ :: _ | _ :: _, [] => simp [sameEntries]
  | (k, v) :: es, (l, w) :: fs =>
    rw [sameEntries, Bool.and_eq_true, Bool.and_eq_true, same_iff k l, same_iff v w,
      sameEntries_iff es fs, List.cons.injEq, Prod.mk.injEq]
end

/-- Equality of values can be decided. -/
instance : DecidableEq Value := fun v w => decidable_of_iff (v.same w = true) (same_iff v w)

end Value

end ManifestRules
