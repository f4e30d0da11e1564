/-
  Hooks: the behaviour that embedding programs attach to a
  schema.

  A schema refers to a hook by its identity alone. What a hook
  does is given to the executor. A hook may be installed over a
  former one, which it can call.

  Key definitions include:
    * `Hook`, `Hook.onTop`, `Hook.previous`
-/

------------------------------------------------------------
-- Identities
------------------------------------------------------------

namespace GraphQL

/-
  A hook: its key, and the keys of the hooks it was installed
  over, the nearest one first.
-/
structure Hook where
  key : Nat
  former : List Nat
  deriving DecidableEq, Repr, Inhabited

namespace Hook

/- A hook of its own. -/
def ofKey (key : Nat) : Hook :=
  ⟨key, []⟩

/- A hook installed over another one. -/
def onTop (key : Nat) : Option Hook → Hook
| none => ofKey key
| some hook => ⟨key, hook.key :: hook.former⟩

/- The hook a hook was installed over. -/
def previous (hook : Hook) : Option Hook :=
  match hook.former with
  | [] => none
  | key :: former => some ⟨key, former⟩

/- A hook remembers the one it was installed over. -/
@[simp]
theorem previous_onTop (key : Nat) (hook? : Option Hook) :
    (onTop key hook?).previous = hook? := by
  cases hook? <;> rfl

end Hook

end GraphQL
