import Mathlib.Data.List.Basic
import Bourse.Fault

/-!
# Outcomes

When a computation that may fail gives a value: a sequence when each of its parts does
(`of_bind_eq_ok`), a map of values where the value comes from one (`map_eq_ok_iff`), and a map of
errors where it was given before (`mapError_eq_ok_iff`). A reader of a parameter accepts what is
admitted, and refuses everything else as malformed (`Judged`). Readings one after the other, or of
every member of a list, admit what all of them do.
-/

namespace Bourse

section Values

variable {ε α β : Type} {x : Except ε α}

theorem of_bind_eq_ok {f : α → Except ε β} {b : β} (h : (x >>= f) = .ok b) :
    ∃ a, x = .ok a ∧ f a = .ok b := by
  cases x with
  | error e => cases h
  | ok a => exact ⟨a, rfl, h⟩

theorem map_eq_ok_iff {f : α → β} {b : β} : x.map f = .ok b ↔ ∃ a, x = .ok a ∧ f a = b := by
  cases x <;> simp [Except.map]

theorem mapError_eq_ok_iff {ε' : Type} {f : ε → ε'} {a : α} :
    x.mapError f = .ok a ↔ x = .ok a := by
  cases x with
  | error e => exact iff_of_false nofun nofun
  | ok b =>
    constructor
    · rintro ⟨⟩
      rfl
    · rintro ⟨⟩
      rfl

end Values

/-- The outcome of reading something: a value when it is admitted, and otherwise a refusal. -/
inductive Judged {α : Type} (admitted : Prop) : Except Fault α → Prop
  | accepted (h : admitted) (a : α) : Judged admitted (.ok a)
  | refused (h : ¬admitted) (cause : Invalid) : Judged admitted (.error (.invalid cause))

namespace Judged

variable {α β : Type} {P Q : Prop} {x : Except Fault α}

theorem exists_ok (h : Judged P x) (hp : P) : ∃ a, x = .ok a := by
  cases h with
  | accepted _ a => exact ⟨a, rfl⟩
  | refused hnot => exact absurd hp hnot

theorem exists_error (h : Judged P x) (hp : ¬P) : ∃ cause, x = .error (.invalid cause) := by
  cases h with
  | accepted hyes => exact absurd hyes hp
  | refused _ cause => exact ⟨cause, rfl⟩

theorem of_ok (h : Judged P x) {a : α} (hx : x = .ok a) : P := by
  cases h with
  | accepted hp => exact hp
  | refused => cases hx

theorem isOk_iff (h : Judged P x) : x.isOk ↔ P := by
  cases h with
  | accepted hp a => exact iff_of_true rfl hp
  | refused hnot => exact iff_of_false Bool.false_ne_true hnot

theorem of_iff (h : Judged P x) (hiff : P ↔ Q) : Judged Q x := by
  rwa [← propext hiff]

theorem map (h : Judged P x) (f : α → β) : Judged P (x.map f) := by
  cases h with
  | accepted hp a => exact .accepted hp (f a)
  | refused hp cause => exact .refused hp cause

/-- Two readings one after the other admit what both of them do. -/
theorem bind (h : Judged P x) {f : α → Except Fault β} (hf : ∀ a, x = .ok a → Judged Q (f a)) :
    Judged (P ∧ Q) (x >>= f) := by
  cases h with
  | accepted hp a =>
    have hrest := hf a rfl
    change Judged _ (f a)
    generalize f a = y at hrest
    cases hrest with
    | accepted hq b => exact .accepted ⟨hp, hq⟩ b
    | refused hq cause => exact .refused (fun h => hq h.2) cause
  | refused hp cause => exact .refused (fun h => hp h.1) cause

theorem mapM {P : α → Prop} {f : α → Except Fault β} (hf : ∀ a, Judged (P a) (f a)) :
    ∀ items : List α, Judged (∀ a ∈ items, P a) (items.mapM f)
  | [] => .accepted (fun _ ha => absurd ha List.not_mem_nil) []
  | a :: items => by
    have hrest : ∀ b, Judged (∀ a ∈ items, P a)
        (do let bs ← items.mapM f; pure (b :: bs) : Except Fault (List β)) := by
      intro b
      rw [bind_pure_comp]
      exact (mapM hf items).map (b :: ·)
    rw [List.mapM_cons]
    exact ((hf a).bind fun b _ => hrest b).of_iff List.forall_mem_cons.symm

end Judged

end Bourse
