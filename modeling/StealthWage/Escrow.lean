import Mathlib

/-! # Cumulative payment from an account

An account is topped up and claimed from by cumulative figures: a claim pays out whatever
of its figure is funded and was not paid before. What has been paid is then a running
maximum, so it does not depend on how often, or in which order, claims are made. -/
namespace StealthWage.Escrow

structure Account (α : Type*) where
  funded : α
  paid : α

inductive Op (α : Type*)
  | deposit (amount : α)
  | claim (figure : α)

variable {α : Type*}

def deposits : List (Op α) → List α
  | [] => []
  | .deposit amount :: ops => amount :: deposits ops
  | .claim _ :: ops => deposits ops

def claims : List (Op α) → List α
  | [] => []
  | .deposit _ :: ops => claims ops
  | .claim figure :: ops => figure :: claims ops

theorem deposits_append (ops more : List (Op α)) :
    deposits (ops ++ more) = deposits ops ++ deposits more := by
  induction ops with
  | nil => rfl
  | cons op ops ih => cases op <;> simp [deposits, ih]

theorem claims_append (ops more : List (Op α)) :
    claims (ops ++ more) = claims ops ++ claims more := by
  induction ops with
  | nil => rfl
  | cons op ops ih => cases op <;> simp [claims, ih]

variable [LinearOrder α]

section largest

variable [OrderBot α]

def largest (figures : List α) : α := figures.foldr max ⊥

@[simp] theorem largest_nil : largest ([] : List α) = ⊥ := rfl

@[simp] theorem largest_cons (a : α) (figures : List α) :
    largest (a :: figures) = max a (largest figures) := rfl

end largest

variable [AddCommMonoid α]

def Account.apply (acc : Account α) : Op α → Account α
  | .deposit amount => { acc with funded := acc.funded + amount }
  | .claim figure => { acc with paid := max acc.paid (min figure acc.funded) }

def Account.run (acc : Account α) (ops : List (Op α)) : Account α := ops.foldl Account.apply acc

/-- The claimed figures, each capped by what was funded at the time. -/
def Account.covered : Account α → List (Op α) → List α
  | _, [] => []
  | acc, .deposit amount :: ops => (acc.apply (.deposit amount)).covered ops
  | acc, .claim figure :: ops => min figure acc.funded :: (acc.apply (.claim figure)).covered ops

@[simp] theorem Account.run_nil (acc : Account α) : acc.run [] = acc := rfl

@[simp] theorem Account.run_cons (acc : Account α) (op : Op α) (ops : List (Op α)) :
    acc.run (op :: ops) = (acc.apply op).run ops := rfl

theorem Account.run_append (acc : Account α) (ops more : List (Op α)) :
    acc.run (ops ++ more) = (acc.run ops).run more := List.foldl_append

theorem Account.covered_append (acc : Account α) (ops more : List (Op α)) :
    acc.covered (ops ++ more) = acc.covered ops ++ (acc.run ops).covered more := by
  induction ops generalizing acc with
  | nil => rfl
  | cons op ops ih => cases op <;> simp [Account.covered, ih]

theorem Account.run_funded (acc : Account α) (ops : List (Op α)) :
    (acc.run ops).funded = acc.funded + (deposits ops).sum := by
  induction ops generalizing acc with
  | nil => simp [deposits]
  | cons op ops ih =>
    rw [Account.run_cons, ih]
    cases op with
    | deposit amount => simp [Account.apply, deposits, add_assoc]
    | claim figure => rfl

variable [OrderBot α]

/-- The running maximum. -/
theorem Account.run_paid (acc : Account α) (ops : List (Op α)) :
    (acc.run ops).paid = max acc.paid (largest (acc.covered ops)) := by
  induction ops generalizing acc with
  | nil => simp [Account.covered]
  | cons op ops ih =>
    rw [Account.run_cons, ih]
    cases op with
    | deposit amount => rfl
    | claim figure =>
      simp only [Account.covered, largest_cons]
      exact max_assoc _ _ _

theorem Account.covered_le [CanonicallyOrderedAdd α] (acc : Account α) (ops : List (Op α)) {A : α}
    (hA : ∀ a ∈ claims ops, a ≤ A) :
    largest (acc.covered ops) ≤ min A (acc.run ops).funded := by
  induction ops generalizing acc with
  | nil => exact bot_le
  | cons op ops ih =>
    rw [Account.run_cons]
    cases op with
    | deposit amount => exact ih _ hA
    | claim figure =>
      have hfig : figure ≤ A := hA figure (by simp [claims])
      have hrest := ih (acc.apply (.claim figure)) fun a ha => hA a (by simp [claims, ha])
      have hmono : acc.funded ≤ ((acc.apply (.claim figure)).run ops).funded := by
        rw [Account.run_funded]
        exact le_self_add
      exact max_le (min_le_min hfig hmono) hrest

/-- A last claim that no earlier one exceeds decides the outcome alone. -/
theorem Account.paid_of_last [CanonicallyOrderedAdd α] (acc : Account α) (ops : List (Op α)) {A : α}
    (hA : ∀ a ∈ claims ops, a ≤ A) (hpaid : acc.paid ≤ min A acc.funded) :
    max (acc.run ops).paid (min A (acc.run ops).funded) = min A (acc.run ops).funded := by
  have hmono : acc.funded ≤ (acc.run ops).funded := by
    rw [Account.run_funded]
    exact le_self_add
  rw [Account.run_paid]
  refine max_eq_right (max_le ?_ (acc.covered_le ops hA))
  exact hpaid.trans (min_le_min le_rfl hmono)

end StealthWage.Escrow
