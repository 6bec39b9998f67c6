import ManifestRules.Engine
/-!
# Two programs run alike

Programs that change the graph are compared by a relation between their graphs and one between
their failures. Two programs simulate each other if from related graphs they end in related ones
with the same value, or both fail with related failures. This goes through all the ways in which
the engine puts programs together.
-/

namespace ManifestRules

variable {R : Graph → Graph → Prop} {S : Error → Error → Prop} {α β : Type}

/-- Results that differ by no more than the relations allow. -/
inductive Alike (R : Graph → Graph → Prop) (S : Error → Error → Prop) :
    EStateM.Result Error Graph α → EStateM.Result Error Graph α → Prop where
  /-- Both succeed with the same value on related graphs. -/
  | ok (a : α) {g h : Graph} (hg : R g h) : Alike R S (.ok a g) (.ok a h)
  /-- Both fail, with related failures on related graphs. -/
  | error {f k : Error} {g h : Graph} (hf : S f k) (hg : R g h) :
    Alike R S (.error f g) (.error k h)

/-- From related graphs two programs come to results that are alike. -/
def Simulates (R : Graph → Graph → Prop) (S : Error → Error → Prop) (p q : Step α) : Prop :=
  ∀ g h, R g h → Alike R S (p.run g) (q.run h)

namespace Simulates

/-- A value is given without touching the graph. -/
theorem pure (a : α) : Simulates R S (Pure.pure a) (Pure.pure a) :=
  fun _ _ hg => .ok a hg

/-- The same result is passed on alike, if every failure is related to itself. -/
theorem lift (hrefl : ∀ f, S f f) (r : Except Error α) :
    Simulates R S (Engine.lift r) (Engine.lift r) := by
  intro g h hg
  cases r with
  | ok a => exact .ok a hg
  | error f => exact .error (hrefl f) hg

/-- Programs that run alike may be followed by programs that do, whatever value they are given. -/
theorem bind {p q : Step α} {f k : α → Step β} (hp : Simulates R S p q)
    (hf : ∀ a, Simulates R S (f a) (k a)) : Simulates R S (p >>= f) (q >>= k) := by
  intro g h hg
  have hfirst := hp g h hg
  rw [EStateM.run_bind, EStateM.run_bind]
  generalize p.run g = r at hfirst
  generalize q.run h = s at hfirst
  cases hfirst with
  | ok a hg => exact hf a _ _ hg
  | error hfail hg => exact .error hfail hg

/-- A loop runs alike if its rounds do. -/
theorem forM {f k : α → Step Unit} {l : List α} (hf : ∀ a ∈ l, Simulates R S (f a) (k a)) :
    Simulates R S (l.forM f) (l.forM k) := by
  induction l with
  | nil => exact pure ()
  | cons a l ih =>
    obtain ⟨hfirst, hrest⟩ := List.forall_mem_cons.mp hf
    exact bind hfirst fun _ => ih hrest

end Simulates

/-- A loop whose rounds change nothing changes nothing. -/
theorem run_forM_of_ok {f : α → Step Unit} {l : List α} {g : Graph}
    (hf : ∀ a ∈ l, (f a).run g = .ok () g) : (l.forM f).run g = .ok () g := by
  induction l with
  | nil => rfl
  | cons a l ih =>
    obtain ⟨hfirst, hrest⟩ := List.forall_mem_cons.mp hf
    have hround : ((a :: l).forM f).run g = (f a >>= fun _ => l.forM f).run g := rfl
    rw [hround, EStateM.run_bind, hfirst]
    exact ih hrest

end ManifestRules
