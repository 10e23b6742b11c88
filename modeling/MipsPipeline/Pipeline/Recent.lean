/-
The most recent elements of a sequence, up to a limit. The oldest lie in front, oldest first, and
the newest behind, newest first; when the front runs out the back is turned round to become the
next front, so that an element is moved once on its way out.
-/
namespace MipsPipeline

structure Recent (α : Type) where
  limit : Nat
  front : List α := []
  back : List α := []
  size : Nat := 0
  size_eq : size = front.length + back.length := by rfl
  size_le : size ≤ limit := by omega
  deriving Repr

namespace Recent

variable {α : Type}

/-- From the oldest to the newest. -/
def toList (r : Recent α) : List α := r.front ++ r.back.reverse

def empty (limit : Nat) : Recent α where
  limit := limit

def clear (r : Recent α) : Recent α := empty r.limit

def newest? (r : Recent α) : Option α := r.back.head?.or r.front.getLast?

/-- Adds an element, letting go of the oldest one if there is no room. -/
def push (r : Recent α) (x : α) : Recent α :=
  if room : r.size < r.limit then
    { limit := r.limit
      front := r.front
      back := x :: r.back
      size := r.size + 1
      size_eq := by have := r.size_eq; simp only [List.length_cons]; omega
      size_le := room }
  else
    match hf : r.front with
    | _ :: front =>
      { limit := r.limit
        front := front
        back := x :: r.back
        size := r.size
        size_eq := by have := r.size_eq; simp only [hf, List.length_cons] at this ⊢; omega
        size_le := r.size_le }
    | [] =>
      match hb : r.back.reverse with
      | _ :: front =>
        { limit := r.limit
          front := front
          back := [x]
          size := r.size
          size_eq := by
            have whole := r.size_eq
            have turned := congrArg List.length hb
            simp only [hf, List.length_nil, List.length_reverse, List.length_cons] at whole turned ⊢
            omega
          size_le := r.size_le }
      | [] => r

theorem length_toList (r : Recent α) : r.toList.length = r.size := by
  simp [toList, r.size_eq]

@[simp] theorem toList_empty (limit : Nat) : (empty limit : Recent α).toList = [] := rfl

@[simp] theorem toList_clear (r : Recent α) : r.clear.toList = [] := rfl

@[simp] theorem limit_push (r : Recent α) (x : α) : (r.push x).limit = r.limit := by
  unfold push
  split
  · rfl
  · split
    · rfl
    · split <;> rfl

/-- What is kept is the end of the sequence. -/
theorem toList_push (r : Recent α) (x : α) :
    (r.push x).toList = (r.toList ++ [x]).drop (r.size + 1 - r.limit) := by
  have bound := r.size_le
  unfold push
  split
  · rename_i room
    simp [toList, show r.size + 1 - r.limit = 0 by omega]
  · rename_i full
    have one : r.size + 1 - r.limit = 1 := by omega
    split
    · rename_i y front hf
      simp [toList, hf, one]
    · rename_i hf
      split
      · rename_i y front hb
        simp [toList, hf, hb, one]
      · rename_i hb
        simp [toList, hf, hb, one]

theorem newest?_eq_getLast? (r : Recent α) : r.newest? = r.toList.getLast? := by
  simp only [newest?, toList, List.getLast?_append, List.getLast?_reverse]

end Recent

end MipsPipeline
