import ExprFrontEnd.Proofs.Places
import Mathlib.Data.List.Sort

/-!
# `ExprFrontEnd.Proofs.PathOrder`: the order of paths

Names are compared character by character and paths component by component, so the
two comparisons are one (`rowLe`): the first place where two rows differ decides, and
a row is in front of those that it is the start of. This is a linear order if it is
one for single elements (`IsLinear`).

Two paths with the same components are equal to the order. A list without such paths
has strict order after sorting (`pairwise_before_mergeSort`), and then its members say
what the list is (`eq_of_pairwise_before`).
-/

set_option autoImplicit false

namespace ExprFrontEnd

/-! ### Rows by their first difference -/

/-- The order of rows by the order of their elements. -/
def rowLe {α : Type} [DecidableEq α] (le : α → α → Bool) : List α → List α → Bool
  | [], _ => true
  | _ :: _, [] => false
  | a :: as, b :: bs => if a = b then rowLe le as bs else le a b

/-- A test by which any two different elements are in one order. -/
structure IsLinear {α : Type} (le : α → α → Bool) : Prop where
  total (a b : α) : a ≠ b → le a b = true ∨ le b a = true
  antisymm (a b : α) : le a b = true → le b a = true → a = b
  trans (a b c : α) : le a b = true → le b c = true → le a c = true

section
variable {α : Type} [DecidableEq α] {le : α → α → Bool}

/-- A row is not behind itself, whatever the order of elements is. -/
theorem rowLe_self (as : List α) : rowLe le as as = true := by
  induction as with
  | nil => rfl
  | cons a as ih => rw [rowLe, if_pos rfl, ih]

/-- Rows are ordered if their elements are. -/
theorem IsLinear.rowLe (h : IsLinear le) : IsLinear (rowLe le) where
  total as := by
    induction as with
    | nil => exact fun _ _ => .inl rfl
    | cons a as ih =>
      intro bs hne
      cases bs with
      | nil => exact .inr rfl
      | cons b bs =>
        rw [ExprFrontEnd.rowLe, ExprFrontEnd.rowLe]
        by_cases hab : a = b
        · subst hab
          rw [if_pos rfl, if_pos rfl]
          exact ih bs fun has => hne (by rw [has])
        · rw [if_neg hab, if_neg (Ne.symm hab)]
          exact h.total a b hab
  antisymm as := by
    induction as with
    | nil =>
      intro bs _ hba
      cases bs with
      | nil => rfl
      | cons b bs => cases hba
    | cons a as ih =>
      intro bs hab hba
      cases bs with
      | nil => cases hab
      | cons b bs =>
        rw [ExprFrontEnd.rowLe] at hab hba
        by_cases heq : a = b
        · subst heq
          rw [if_pos rfl] at hab hba
          rw [ih bs hab hba]
        · rw [if_neg heq] at hab
          rw [if_neg (Ne.symm heq)] at hba
          exact absurd (h.antisymm a b hab hba) heq
  trans as := by
    induction as with
    | nil => exact fun _ _ _ _ => rfl
    | cons a as ih =>
      intro bs cs hab hbc
      cases bs with
      | nil => cases hab
      | cons b bs =>
        cases cs with
        | nil => cases hbc
        | cons c cs =>
          rw [ExprFrontEnd.rowLe] at hab hbc ⊢
          -- If the first and the last head are one, so is the one between them.
          by_cases hac : a = c
          · subst hac
            rw [if_pos rfl]
            by_cases heq : a = b
            · subst heq
              rw [if_pos rfl] at hab hbc
              exact ih bs cs hab hbc
            · rw [if_neg heq] at hab
              rw [if_neg (Ne.symm heq)] at hbc
              exact absurd (h.antisymm a b hab hbc) heq
          · rw [if_neg hac]
            by_cases heq : a = b
            · subst heq
              rwa [if_neg hac] at hbc
            · rw [if_neg heq] at hab
              by_cases heq' : b = c
              · subst heq'
                exact hab
              · rw [if_neg heq'] at hbc
                exact h.trans a b c hab hbc

end

/-! ### Names, components and paths -/

namespace Path

/-- Names are rows of characters by their numbers. -/
theorem charsLe_eq_rowLe (as bs : List Char) :
    charsLe as bs = rowLe (fun a b => decide (a.toNat < b.toNat)) as bs := by
  induction as generalizing bs with
  | nil => rfl
  | cons a as ih =>
    cases bs with
    | nil => rfl
    | cons b bs => rw [charsLe, rowLe, ih]

/-- The numbers of characters are in linear order, hence names are. -/
theorem isLinear_charsLe : IsLinear charsLe := by
  have hchars : IsLinear fun a b : Char => decide (a.toNat < b.toNat) := by
    refine ⟨fun a b hne => ?_, fun a b hab hba => ?_, fun a b c hab hbc => ?_⟩
    · have hval : a.toNat ≠ b.toNat := fun hval => hne (Char.toNat_inj.mp hval)
      simp only [decide_eq_true_eq]
      omega
    · simp only [decide_eq_true_eq] at hab hba
      omega
    · simp only [decide_eq_true_eq] at hab hbc ⊢
      omega
  have heq : charsLe = rowLe fun a b => decide (a.toNat < b.toNat) :=
    funext fun as => funext (charsLe_eq_rowLe as)
  exact heq ▸ hchars.rowLe

namespace Component

/-- The characters of a component, if it is a name. -/
def chars : Component → List Char
  | name s => s
  | _ => []

/-- A component is known by its kind and its characters. -/
theorem eq_of_rank_eq {a b : Component} (hrank : a.rank = b.rank) (hchars : a.chars = b.chars) :
    a = b := by
  cases a <;> cases b <;> first
    | rfl
    | exact congrArg name hchars
    | cases hrank

/-- Components of one rank are ordered by their characters. -/
theorem le_eq (a b : Component) :
    a.le b = if a.rank = b.rank then charsLe a.chars b.chars else decide (a.rank < b.rank) := by
  cases a <;> cases b <;> rfl

/-- Components are first compared by kind, and two names by their characters. -/
theorem isLinear_le : IsLinear le := by
  refine ⟨fun a b hne => ?_, fun a b hab hba => ?_, fun a b c hab hbc => ?_⟩
  -- Components of one rank are compared by their characters, and others by rank alone.
  · rw [le_eq, le_eq]
    by_cases hrank : a.rank = b.rank
    · rw [if_pos hrank, if_pos hrank.symm]
      exact isLinear_charsLe.total _ _ fun hchars => hne (eq_of_rank_eq hrank hchars)
    · rw [if_neg hrank, if_neg (Ne.symm hrank), decide_eq_true_eq, decide_eq_true_eq]
      omega
  · rw [le_eq] at hab hba
    by_cases hrank : a.rank = b.rank
    · rw [if_pos hrank] at hab
      rw [if_pos hrank.symm] at hba
      exact eq_of_rank_eq hrank (isLinear_charsLe.antisymm _ _ hab hba)
    · rw [if_neg hrank, decide_eq_true_eq] at hab
      rw [if_neg (Ne.symm hrank), decide_eq_true_eq] at hba
      omega
  -- Unless all three have one rank, the rank of the first is below that of the last.
  · rw [le_eq] at hab hbc ⊢
    by_cases hrank : a.rank = b.rank
    · rw [if_pos hrank] at hab
      rw [hrank]
      by_cases hrank' : b.rank = c.rank
      · rw [if_pos hrank'] at hbc ⊢
        exact isLinear_charsLe.trans _ _ _ hab hbc
      · rwa [if_neg hrank'] at hbc ⊢
    · rw [if_neg hrank, decide_eq_true_eq] at hab
      have hlt : a.rank < c.rank := by
        by_cases hrank' : b.rank = c.rank
        · omega
        · rw [if_neg hrank', decide_eq_true_eq] at hbc
          omega
      rw [if_neg (Nat.ne_of_lt hlt), decide_eq_true_eq]
      exact hlt

end Component

/-- Paths are rows of components. -/
theorem componentsLe_eq_rowLe (as bs : List Component) :
    componentsLe as bs = rowLe Component.le as bs := by
  induction as generalizing bs with
  | nil => rfl
  | cons a as ih =>
    cases bs with
    | nil => rfl
    | cons b bs => rw [componentsLe, rowLe, ih]

/-- Components are in linear order, hence their rows are. -/
theorem isLinear_componentsLe : IsLinear componentsLe := by
  have heq : componentsLe = rowLe Component.le :=
    funext fun as => funext (componentsLe_eq_rowLe as)
  exact heq ▸ Component.isLinear_le.rowLe

/-- Paths are compared by their components, so their order is transitive as that one is. -/
theorem le_trans (p q r : Path) (hpq : p.le q = true) (hqr : q.le r = true) : p.le r = true :=
  isLinear_componentsLe.trans _ _ _ hpq hqr

/-- Any two paths can be compared. Sorting needs this and transitivity. -/
theorem le_total (p q : Path) : (p.le q || q.le p) = true := by
  rw [Bool.or_eq_true]
  by_cases heq : p.components = q.components
  · left
    rw [le, heq, componentsLe_eq_rowLe, rowLe_self]
  · exact isLinear_componentsLe.total _ _ heq

/-! ### Strict order -/

/-- One path is in front of another one, and differs from it in a component. -/
structure Before (p q : Path) : Prop where
  le : p.le q = true
  ne : p.components ≠ q.components

/-- If each of two paths is in front of the other, they have the same components, and then
neither is. -/
theorem Before.asymm {p q : Path} (h : p.Before q) : ¬q.Before p := fun h' =>
  h.ne (isLinear_componentsLe.antisymm _ _ h.le h'.le)

instance : Std.Antisymm Before := ⟨fun _ _ h h' => absurd h' h.asymm⟩

/-- A path is not in front of itself. -/
theorem nodup_of_pairwise_before {paths : List Path} (h : paths.Pairwise Before) : paths.Nodup :=
  h.imp fun hpq heq => hpq.ne (congrArg components heq)

/-- Sorting paths of which no two have the same components. -/
theorem pairwise_before_mergeSort {paths : List Path}
    (h : paths.Pairwise fun p q => p.components ≠ q.components) :
    (paths.mergeSort le).Pairwise Before := by
  have hsorted := List.pairwise_mergeSort le_trans le_total paths
  have hne := (List.mergeSort_perm paths le).symm.pairwise_iff (fun hpq => Ne.symm hpq) |>.mp h
  exact hsorted.imp₂ (fun _ _ hle hne => ⟨hle, hne⟩) hne

/-- A list in strict order is known by its members. -/
theorem eq_of_pairwise_before {ps qs : List Path} (hps : ps.Pairwise Before)
    (hqs : qs.Pairwise Before) (h : ∀ p, p ∈ ps ↔ p ∈ qs) : ps = qs := by
  have hperm := (List.perm_ext_iff_of_nodup (nodup_of_pairwise_before hps)
    (nodup_of_pairwise_before hqs)).mpr h
  exact hperm.eq_of_pairwise (fun p q _ _ hpq hqp => absurd hqp hpq.asymm) hps hqs

/-- A list in strict order with fewer members is a part of the other one. -/
theorem sublist_of_pairwise_before {ps qs : List Path} (hps : ps.Pairwise Before)
    (hqs : qs.Pairwise Before) (h : ps ⊆ qs) : ps.Sublist qs :=
  List.sublist_of_subperm_of_pairwise
    (List.subperm_of_subset (nodup_of_pairwise_before hps) h) hps hqs

end Path

end ExprFrontEnd
