/-! Lengths of time, and how far a clock reaches. Both are told in milliseconds. -/

namespace MediaCatalog

/-- A length of time, whose seconds are a number of 64 bits. -/
structure Duration where
  milliseconds : Nat
  seconds_lt : milliseconds / 1000 < UInt64.size
  deriving DecidableEq, Repr

namespace Duration

instance : Coe Duration Nat := ⟨milliseconds⟩

def ofSeconds (n : UInt64) : Duration :=
  ⟨1000 * n.toNat, by rw [Nat.mul_div_cancel_left _ (by decide)]; exact n.toNat_lt⟩

def ofMilliseconds (n : UInt64) : Duration :=
  ⟨n.toNat, Nat.lt_of_le_of_lt (Nat.div_le_self _ _) n.toNat_lt⟩

/-- The longer one. -/
instance : Max Duration := ⟨fun a b => if a.milliseconds ≤ b.milliseconds then b else a⟩

@[simp] theorem milliseconds_max (a b : Duration) :
    (max a b).milliseconds = max a.milliseconds b.milliseconds := by
  show (if a.milliseconds ≤ b.milliseconds then b else a).milliseconds = _
  split
  next h => exact (Nat.max_eq_right h).symm
  next h => exact (Nat.max_eq_left (Nat.le_of_not_le h)).symm

end Duration

/-- The first moment that a clock cannot tell: its seconds are a signed number of 64 bits. -/
def clockEnd : Nat := 1000 * Nat.pow 2 63

/-- A length of time can be longer than that. -/
example : clockEnd ≤ (Duration.ofSeconds (.ofNat (UInt64.size - 1))).milliseconds := by
  decide

end MediaCatalog
