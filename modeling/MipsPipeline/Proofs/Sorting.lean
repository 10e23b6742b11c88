import Mathlib.Data.List.Flatten
import Mathlib.Order.Defs.LinearOrder

/-
Lists in the order of a key. Such a list is determined by its parts of equal key, a stable sort
keeps these parts, and so sorting puts together what two passes over one list have left apart.
-/
namespace MipsPipeline

section Key

variable {α : Type} {key : α → Nat}

/-- The members with one key. -/
def keyed (key : α → Nat) (k : Nat) (xs : List α) : List α := xs.filter (key · = k)

theorem keyed_append (k : Nat) (xs ys : List α) :
    keyed key k (xs ++ ys) = keyed key k xs ++ keyed key k ys := List.filter_append ..

theorem keyed_cons_self (x : α) (xs : List α) :
    keyed key (key x) (x :: xs) = x :: keyed key (key x) xs :=
  List.filter_cons_of_pos (decide_eq_true rfl)

theorem keyed_cons_of_ne {x : α} {k : Nat} (other : key x ≠ k) (xs : List α) :
    keyed key k (x :: xs) = keyed key k xs :=
  List.filter_cons_of_neg (mt of_decide_eq_true other)

theorem mem_keyed {x : α} {k : Nat} {xs : List α} :
    x ∈ keyed key k xs ↔ x ∈ xs ∧ key x = k := by
  rw [keyed, List.mem_filter, decide_eq_true_eq]

theorem key_le_of_keyed {x y : α} {xs ys : List α}
    (sorted : (y :: ys).Pairwise (key · ≤ key ·))
    (same : ∀ k, keyed key k (x :: xs) = keyed key k (y :: ys)) : key y ≤ key x := by
  have member : x ∈ keyed key (key x) (y :: ys) := by
    rw [← same, keyed_cons_self]
    exact List.mem_cons_self
  rcases List.mem_cons.mp (mem_keyed.mp member).1 with rfl | later
  · exact Nat.le_refl _
  · exact List.rel_of_pairwise_cons sorted later

theorem eq_of_keyed {xs ys : List α} (sorted : xs.Pairwise (key · ≤ key ·))
    (sorted' : ys.Pairwise (key · ≤ key ·))
    (same : ∀ k, keyed key k xs = keyed key k ys) : xs = ys := by
  induction xs generalizing ys with
  | nil =>
    cases ys with
    | nil => rfl
    | cons y ys =>
      have none_left := same (key y)
      rw [keyed_cons_self] at none_left
      contradiction
  | cons x xs ih =>
    cases ys with
    | nil =>
      have none_left := same (key x)
      rw [keyed_cons_self] at none_left
      contradiction
    | cons y ys =>
      have keys : key x = key y :=
        Nat.le_antisymm (key_le_of_keyed sorted fun k => (same k).symm)
          (key_le_of_keyed sorted' same)
      -- The heads head one part, and without them all parts still agree.
      have parts := same (key x)
      rw [keyed_cons_self, keys, keyed_cons_self] at parts
      obtain ⟨rfl, rest⟩ := List.cons.inj parts
      refine congrArg (x :: ·) (ih sorted.tail sorted'.tail fun k => ?_)
      by_cases here : key x = k
      · rw [← here, rest]
      · rw [← keyed_cons_of_ne here, same k, keyed_cons_of_ne here]

/-- The list in the order of the keys; members of equal key stay in the order they have. -/
def sortBy (key : α → Nat) (xs : List α) : List α := xs.mergeSort (key · ≤ key ·)

theorem key_le_trans (x y z : α) (before : decide (key x ≤ key y))
    (after : decide (key y ≤ key z)) : decide (key x ≤ key z) :=
  decide_eq_true (Nat.le_trans (of_decide_eq_true before) (of_decide_eq_true after))

theorem key_le_total (x y : α) : decide (key x ≤ key y) || decide (key y ≤ key x) := by
  rw [Bool.or_eq_true, decide_eq_true_eq, decide_eq_true_eq]
  exact Nat.le_total _ _

theorem sorted_sortBy (xs : List α) : (sortBy key xs).Pairwise (key · ≤ key ·) :=
  (List.pairwise_mergeSort key_le_trans key_le_total xs).imp of_decide_eq_true

theorem keyed_sortBy (k : Nat) (xs : List α) : keyed key k (sortBy key xs) = keyed key k xs := by
  have level : (keyed key k xs).Pairwise fun x y => decide (key x ≤ key y) := by
    refine List.pairwise_of_forall_mem_list fun x first y second => decide_eq_true ?_
    have same := (mem_keyed.mp first).2.trans (mem_keyed.mp second).2.symm
    exact Nat.le_of_eq same
  have kept : List.Sublist (keyed key k xs) (sortBy key xs) :=
    List.sublist_mergeSort key_le_trans key_le_total level List.filter_sublist
  have inside := kept.filter (key · = k)
  have whole : (keyed key k xs).filter (key · = k) = keyed key k xs := by
    rw [keyed, List.filter_filter]
    simp only [Bool.and_self]
  have count := ((List.mergeSort_perm xs (key · ≤ key ·)).filter (key · = k)).length_eq
  rw [whole] at inside
  exact (inside.eq_of_length count.symm).symm

theorem sortBy_eq_nil_iff {xs : List α} :
    sortBy key xs = [] ↔ xs = [] := by
  rw [← List.length_eq_zero_iff, sortBy, List.length_mergeSort, List.length_eq_zero_iff]

end Key

section Passes

variable {α β : Type} {key : α → Nat} {number : β → Nat} {f g : β → List α} {xs : List β}

theorem keyed_flatMap (numbered : ∀ x, ∀ a ∈ f x, key a = number x) (k : Nat) :
    keyed key k (xs.flatMap f) = (keyed number k xs).flatMap f := by
  induction xs with
  | nil => rfl
  | cons x rest ih =>
    rw [List.flatMap_cons, keyed_append, ih]
    by_cases here : number x = k
    · have all : keyed key k (f x) = f x :=
        List.filter_eq_self.mpr fun a member => decide_eq_true ((numbered x a member).trans here)
      rw [all, ← here, keyed_cons_self, List.flatMap_cons]
    · have nothing : keyed key k (f x) = [] := by
        refine List.filter_eq_nil_iff.mpr fun a member same => here ?_
        exact (numbered x a member).symm.trans (of_decide_eq_true same)
      rw [nothing, keyed_cons_of_ne here, List.nil_append]

variable (increasing : xs.Pairwise (number · < number ·))

include increasing

theorem keyed_of_increasing (k : Nat) :
    keyed number k xs = [] ∨ ∃ x ∈ xs, keyed number k xs = [x] := by
  induction xs with
  | nil => exact .inl rfl
  | cons x rest ih =>
    by_cases here : number x = k
    · have none_later : keyed number (number x) rest = [] := by
        refine List.filter_eq_nil_iff.mpr fun y later same => ?_
        have before := List.rel_of_pairwise_cons increasing later
        have equal := of_decide_eq_true same
        omega
      rw [← here, keyed_cons_self, none_later]
      exact .inr ⟨x, List.mem_cons_self, rfl⟩
    · rw [keyed_cons_of_ne here]
      rcases ih increasing.tail with nothing | ⟨y, later, alone⟩
      · exact .inl nothing
      · exact .inr ⟨y, List.mem_cons_of_mem x later, alone⟩

theorem keyed_of_mem {x : β} (member : x ∈ xs) : keyed number (number x) xs = [x] := by
  have found : x ∈ keyed number (number x) xs := mem_keyed.mpr ⟨member, rfl⟩
  rcases keyed_of_increasing increasing (number x) with nothing | ⟨y, -, alone⟩
  · rw [nothing] at found
    contradiction
  · rw [alone] at found ⊢
    rw [List.mem_singleton.mp found]

theorem sorted_flatMap (numbered : ∀ x, ∀ a ∈ f x, key a = number x) :
    (xs.flatMap f).Pairwise (key · ≤ key ·) := by
  refine List.pairwise_flatMap.mpr ⟨?_, increasing.imp ?_⟩
  · intro x _
    refine List.pairwise_of_forall_mem_list fun a first b second => ?_
    exact Nat.le_of_eq ((numbered x a first).trans (numbered x b second).symm)
  · intro x y before a first b second
    rw [numbered x a first, numbered y b second]
    omega

/-- What a first and then a second pass find in the members, once it is sorted, is what both find
in one member after the other. -/
theorem sortBy_passes (first : ∀ x, ∀ a ∈ f x, key a = number x)
    (second : ∀ x, ∀ a ∈ g x, key a = number x) :
    sortBy key (xs.flatMap f ++ xs.flatMap g) = xs.flatMap fun x => f x ++ g x := by
  have both : ∀ x, ∀ a ∈ f x ++ g x, key a = number x := by
    intro x a member
    rcases List.mem_append.mp member with early | late
    · exact first x a early
    · exact second x a late
  refine eq_of_keyed (sorted_sortBy _) (sorted_flatMap increasing both) fun k => ?_
  rw [keyed_sortBy, keyed_append, keyed_flatMap first, keyed_flatMap second, keyed_flatMap both]
  rcases keyed_of_increasing increasing k with nothing | ⟨x, -, alone⟩
  · rw [nothing]
    rfl
  · rw [alone, List.flatMap_singleton, List.flatMap_singleton, List.flatMap_singleton]

end Passes

end MipsPipeline
