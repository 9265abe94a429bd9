/-! Counts by name. A name that was never counted has zero. -/

namespace MediaCatalog.Workflow

abbrev Tally := List (String × Nat)

namespace Tally

def count (name : String) (t : Tally) : Nat :=
  (t.lookup name).getD 0

def total (t : Tally) : Nat :=
  (t.map Prod.snd).foldl (· + ·) 0

def set (name : String) (n : Nat) : Tally → Tally
  | [] => [(name, n)]
  | (k, m) :: rest => if name = k then (k, n) :: rest else (k, m) :: set name n rest

def increase (name : String) (t : Tally) : Tally :=
  t.set name (t.count name + 1)

def decrease (name : String) (t : Tally) : Tally :=
  t.set name (t.count name - 1)

theorem count_set_self (name : String) (n : Nat) (t : Tally) : (t.set name n).count name = n := by
  induction t with
  | nil => simp [set, count]
  | cons entry rest ih =>
    obtain ⟨k, m⟩ := entry
    by_cases h : name = k
    · simp [set, count, h]
    · have hk : (name == k) = false := beq_false_of_ne h
      simpa [set, count, h, hk, List.lookup_cons] using ih

theorem count_set_of_ne {name other : String} (h : other ≠ name) (n : Nat) (t : Tally) :
    (t.set name n).count other = t.count other := by
  have hn : (other == name) = false := beq_false_of_ne h
  induction t with
  | nil => simp [set, count, List.lookup_cons, hn]
  | cons entry rest ih =>
    obtain ⟨k, m⟩ := entry
    by_cases hk : name = k
    · subst hk
      simp [set, count, List.lookup_cons, hn]
    · cases ho : other == k with
      | true => simp [set, count, hk, List.lookup_cons, ho]
      | false => simpa [set, count, hk, List.lookup_cons, ho] using ih

theorem count_increase (name other : String) (t : Tally) :
    (t.increase name).count other = if other = name then t.count other + 1 else t.count other := by
  unfold increase
  split
  next h => rw [h, count_set_self]
  next h => rw [count_set_of_ne h]

theorem count_decrease (name other : String) (t : Tally) :
    (t.decrease name).count other = if other = name then t.count other - 1 else t.count other := by
  unfold decrease
  split
  next h => rw [h, count_set_self]
  next h => rw [count_set_of_ne h]

end Tally

end MediaCatalog.Workflow
