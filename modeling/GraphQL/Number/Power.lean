/-
  Powers of the two bases of numbers: two, in which they are
  held, and ten, in which they are written.

  Key definitions include:
    * `twoTo`, `tenTo`
-/

------------------------------------------------------------
-- Powers
------------------------------------------------------------

namespace GraphQL

/- A power of two. -/
abbrev twoTo (k : Nat) : Nat :=
  Nat.pow 2 k

/- A power of ten. -/
abbrev tenTo (k : Nat) : Nat :=
  Nat.pow 10 k

/- A further factor two. -/
theorem twoTo_succ (k : Nat) : twoTo (k + 1) = twoTo k * 2 :=
  rfl

/- A further factor ten. -/
theorem tenTo_succ (k : Nat) : tenTo (k + 1) = tenTo k * 10 :=
  rfl

end GraphQL
