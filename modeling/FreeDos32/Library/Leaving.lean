import FreeDos32.Library.Erasing
import Mathlib.Logic.Relation
import Mathlib.Data.Fintype.EquivFin
import Mathlib.Order.WellFounded

namespace FreeDos32

open Relation

variable {α : Type} {t : α → Option α} {x y : α}

def Next (t : α → Option α) (x y : α) : Prop := t x = some y

instance [DecidableEq α] (t : α → Option α) (x y : α) : Decidable (Next t x y) :=
  inferInstanceAs (Decidable (t x = some y))

theorem Leaves.acyclic (h : Leaves t x) : ∀ y, ReflTransGen (Next t) x y → ¬TransGen (Next t) y y := by
  induction h with
  | @stop x hx =>
    intro y hy hcycle
    rcases ReflTransGen.cases_head hy with rfl | ⟨z, hz, -⟩
    · obtain ⟨z, hz, -⟩ := TransGen.head'_iff.mp hcycle
      rw [Next, hx] at hz
      cases hz
    · rw [Next, hx] at hz
      cases hz
  | @step x z hz _ ih =>
    intro y hy hcycle
    have hfrom : ∀ w, Next t x w → w = z := by
      intro w hw
      rw [Next, hz] at hw
      exact (Option.some.inj hw).symm
    rcases ReflTransGen.cases_head hy with rfl | ⟨w, hw, hwy⟩
    · obtain ⟨w, hw, hwx⟩ := TransGen.head'_iff.mp hcycle
      obtain rfl := hfrom w hw
      exact ih x hwx hcycle
    · obtain rfl := hfrom w hw
      exact ih y hwy hcycle

/-- Among finitely many cells the walk comes to an end if and only if it comes to no cell twice. -/
theorem leaves_iff_acyclic [Finite α] :
    Leaves t x ↔ ∀ y, ReflTransGen (Next t) x y → ¬TransGen (Next t) y y := by
  constructor
  · exact Leaves.acyclic
  · intro h
    let Reached := {y // ReflTransGen (Next t) x y}
    let R : Reached → Reached → Prop := fun a b => TransGen (Next t) b.1 a.1
    have hirrefl : Std.Irrefl R := ⟨fun a => h a.1 a.2⟩
    have htrans : IsTrans Reached R := ⟨fun _ _ _ hab hbc => hbc.trans hab⟩
    have hwf : WellFounded R := Finite.wellFounded_of_trans_of_irrefl R
    have hall : ∀ a : Reached, Leaves t a.1 := by
      intro a
      induction a using hwf.induction with
      | _ a ih =>
        cases ha : t a.1 with
        | none => exact .stop ha
        | some y => exact .step ha (ih ⟨y, a.2.tail ha⟩ (.single ha))
    exact hall ⟨x, .refl⟩

end FreeDos32
