import GraphQL.Diagnostics
import Mathlib.Data.BitVec
import Mathlib.Data.List.Infix

/-
  What a sink lets through over a whole history of calls.

  An id is enabled if the last call that switched it switched
  it on. A diagnostic that is raised once passes if one of its
  ids is enabled and one of them is new: in no set that was
  raised once and let through. Ids are never forgotten, and
  those that are suppressed are not noted.

  Key definitions include:
    * `DiagnosticIds.Has`, `DiagnosticIds.flag`
    * `Sink.Call`, `Sink.after`, `Sink.Emits`
    * `Sink.SwitchedOn`, `Sink.RaisedIn`

  Main declarations:
    * `Sink.has_enabled_after_iff`
    * `Sink.has_warned_after_iff`
    * `Sink.emits_over_histories`
-/

------------------------------------------------------------
-- Sets of Ids
------------------------------------------------------------

namespace GraphQL

namespace DiagnosticIds

variable {a b : DiagnosticIds} {i : Nat}

/- A set has the id of a bit. -/
def Has (ids : DiagnosticIds) (i : Nat) : Prop :=
  ids.bits.getLsbD i = true

/- The id of a bit alone. -/
def flag (i : Nat) : DiagnosticIds :=
  ⟨BitVec.twoPow 32 i⟩

theorem Has.lt (h : a.Has i) : i < 32 :=
  BitVec.lt_of_getLsbD h

theorem not_has_empty : ¬ empty.Has i := by
  simp [Has, empty]

theorem has_union_iff :
    (a.union b).Has i ↔ a.Has i ∨ b.Has i := by
  simp [Has, union]

theorem has_diff_iff :
    (a.diff b).Has i ↔ a.Has i ∧ ¬ b.Has i := by
  simp only [Has, diff, BitVec.getLsbD_and,
    BitVec.getLsbD_not, Bool.and_eq_true, Bool.not_eq_true',
    decide_eq_true_eq, Bool.not_eq_true]
  constructor
  · intro ⟨hA, _, hB⟩
    exact ⟨hA, hB⟩
  · intro ⟨hA, hB⟩
    exact ⟨hA, Has.lt hA, hB⟩

theorem has_flag_iff {j : Nat} (h : i < 32) :
    (flag i).Has j ↔ j = i := by
  simp [Has, flag, h, eq_comm]

theorem intersects_iff :
    a.intersects b = true ↔ ∃ i, b.Has i ∧ a.Has i := by
  rw [intersects, bne_iff_ne]
  constructor
  · intro h
    by_contra hNone
    apply h
    apply BitVec.eq_of_getLsbD_eq
    intro i _
    rw [BitVec.getLsbD_and, Bool.eq_iff_iff, Bool.and_eq_true]
    have hApart : ¬ (b.Has i ∧ a.Has i) := by
      intro hBoth
      exact hNone ⟨i, hBoth⟩
    simpa [Has, and_comm] using hApart
  · intro ⟨i, hB, hA⟩ hZero
    have hBit := congrArg (BitVec.getLsbD · i) hZero
    rw [Has] at hA hB
    simp [hA, hB] at hBit

theorem contains_iff :
    a.contains b = true ↔ ∀ i, b.Has i → a.Has i := by
  rw [contains, beq_iff_eq]
  constructor
  · intro h i hB
    rw [Has, ← h, BitVec.getLsbD_and, Bool.and_eq_true] at hB
    exact hB.1
  · intro h
    apply BitVec.eq_of_getLsbD_eq
    intro i _
    rw [BitVec.getLsbD_and, Bool.eq_iff_iff, Bool.and_eq_true]
    constructor
    · intro hBoth
      exact hBoth.2
    · intro hB
      exact ⟨h i hB, hB⟩

end DiagnosticIds

------------------------------------------------------------
-- Calls
------------------------------------------------------------

namespace Sink

/- A call on a sink. -/
inductive Call where
  | enable (ids : DiagnosticIds)
  | suppress (ids : DiagnosticIds)
  | enableAll
  | suppressAll
  | warn (diagnostic : Diagnostic)
  | warnOnce (diagnostic : Diagnostic)

/- The sink after a call, and what the call lets through. -/
def perform (sink : Sink) : Call → Sink × List Report
| .enable ids => (sink.enable ids, [])
| .suppress ids => (sink.suppress ids, [])
| .enableAll => (sink.enableAll, [])
| .suppressAll => (sink.suppressAll, [])
| .warn diagnostic => sink.receive (.warn diagnostic)
| .warnOnce diagnostic => sink.receive (.warnOnce diagnostic)

/- The sink after calls, fresh at first. -/
def after (calls : List Call) : Sink :=
  calls.foldl (fun sink call => (sink.perform call).1) .fresh

/- A call lets something through, after those before it. -/
def Emits (before : List Call) (call : Call) : Prop :=
  ((after before).perform call).2 ≠ []

variable {sink : Sink} {calls before : List Call}
variable {call : Call} {diagnostic : Diagnostic} {i : Nat}

theorem after_concat (calls : List Call) (call : Call) :
    after (calls ++ [call]) =
      ((after calls).perform call).1 := by
  rw [after, List.foldl_concat, after]

/- What a diagnostic that is raised lets through. -/
theorem perform_warn (sink : Sink) (diagnostic : Diagnostic) :
    sink.perform (.warn diagnostic) =
      (sink, if sink.isEnabled diagnostic.ids then
        [.diagnostic diagnostic] else []) :=
  rfl

/- What one that is raised once lets through. -/
theorem perform_warnOnce
    (sink : Sink)
    (diagnostic : Diagnostic) :
    sink.perform (.warnOnce diagnostic) =
      if sink.isEnabled diagnostic.ids = true ∧
          ¬ sink.warned.contains diagnostic.ids = true then
        ({ sink with
            warned := sink.warned.union diagnostic.ids },
          [.diagnostic diagnostic])
      else
        (sink, []) := by
  simp only [perform, receive, warnOnce]
  by_cases hEnabled : sink.isEnabled diagnostic.ids = true
  · by_cases hWarned :
        sink.warned.contains diagnostic.ids = true
    · simp [hEnabled, hWarned]
    · simp [hEnabled, hWarned]
  · simp [hEnabled]

------------------------------------------------------------
-- Enabled Ids
------------------------------------------------------------

/- A call that switches an id on. -/
def Call.SwitchesOn : Call → Nat → Prop
| .enable ids, i => ids.Has i
| .enableAll, i => DiagnosticIds.all.Has i
| _, _ => False

/-
  A call that switches an id off. To enable all is to enable
  the known ones alone.
-/
def Call.SwitchesOff : Call → Nat → Prop
| .suppress ids, i => ids.Has i
| .suppressAll, _ => True
| .enableAll, i => ¬ DiagnosticIds.all.Has i
| _, _ => False

/- A call switches an id on, and none after it off. -/
def SwitchedOn (calls : List Call) (i : Nat) : Prop :=
  ∃ earlier call later, calls = earlier ++ call :: later ∧
    call.SwitchesOn i ∧
    ∀ other ∈ later, ¬ other.SwitchesOff i

theorem switchedOn_concat_iff :
    SwitchedOn (calls ++ [call]) i ↔
      call.SwitchesOn i ∨
        SwitchedOn calls i ∧ ¬ call.SwitchesOff i := by
  constructor
  · intro ⟨earlier, found, later, hCalls, hOn, hLater⟩
    rcases List.eq_nil_or_concat later with
      hNil | ⟨rest, last, hConcat⟩
    · rw [hNil] at hCalls
      have hFound := (List.append_inj' hCalls rfl).2
      cases hFound
      exact .inl hOn
    · rw [hConcat, List.concat_eq_append, ← List.cons_append,
        ← List.append_assoc] at hCalls
      rcases List.append_inj' hCalls rfl with ⟨hRest, hLast⟩
      cases hLast
      rw [hConcat, List.concat_eq_append] at hLater
      refine .inr ⟨⟨earlier, found, rest, hRest, hOn, ?_⟩, ?_⟩
      · intro other hOther
        exact hLater other (List.mem_append_left _ hOther)
      · exact hLater call (List.mem_concat_self)
  · intro h
    rcases h with hOn | ⟨hBefore, hOff⟩
    · exact ⟨calls, call, [], rfl, hOn, by simp⟩
    · rcases hBefore with
        ⟨earlier, found, later, hCalls, hOn, hLater⟩
      refine ⟨earlier, found, later ++ [call], ?_, hOn, ?_⟩
      · rw [hCalls, List.append_assoc, List.cons_append]
      · intro other hOther
        rcases List.mem_append.1 hOther with hOther | hLast
        · exact hLater other hOther
        · rwa [List.mem_singleton.1 hLast]

/- One call switches the ids that it is about. -/
theorem has_enabled_perform_iff :
    (sink.perform call).1.enabled.Has i ↔
      call.SwitchesOn i ∨
        sink.enabled.Has i ∧ ¬ call.SwitchesOff i := by
  cases call with
  | enable ids =>
      simp [perform, enable, DiagnosticIds.has_union_iff,
        Call.SwitchesOn, Call.SwitchesOff, or_comm]
  | suppress ids =>
      simp [perform, suppress, DiagnosticIds.has_diff_iff,
        Call.SwitchesOn, Call.SwitchesOff]
  | enableAll =>
      simp only [perform, enableAll, Call.SwitchesOn,
        Call.SwitchesOff]
      tauto
  | suppressAll =>
      simp [perform, suppressAll, DiagnosticIds.not_has_empty,
        Call.SwitchesOn, Call.SwitchesOff]
  | warn diagnostic =>
      simp [perform_warn, Call.SwitchesOn, Call.SwitchesOff]
  | warnOnce diagnostic =>
      rw [perform_warnOnce]
      split <;> simp [Call.SwitchesOn, Call.SwitchesOff]

/-
  An id is enabled if the last call that switched it switched
  it on. A fresh sink is as one on which all were just enabled.
-/
theorem has_enabled_after_iff :
    (after calls).enabled.Has i ↔
      SwitchedOn (.enableAll :: calls) i := by
  induction calls using List.reverseRecOn with
  | nil =>
      rw [← List.nil_append [Call.enableAll],
        switchedOn_concat_iff]
      simp [after, fresh, SwitchedOn, Call.SwitchesOn]
  | append_singleton calls call ih =>
      rw [after_concat, has_enabled_perform_iff, ih,
        ← List.cons_append, switchedOn_concat_iff]

theorem isEnabled_iff {ids : DiagnosticIds} :
    sink.isEnabled ids = true ↔
      ∃ i, ids.Has i ∧ sink.enabled.Has i :=
  DiagnosticIds.intersects_iff

------------------------------------------------------------
-- Raised Ids
------------------------------------------------------------

/- An id is in a set that was raised once and let through. -/
def RaisedIn (calls : List Call) (i : Nat) : Prop :=
  ∃ earlier diagnostic,
    earlier ++ [.warnOnce diagnostic] <+: calls ∧
      Emits earlier (.warnOnce diagnostic) ∧
      diagnostic.ids.Has i

/- What was raised stays so, whatever is called next. -/
theorem RaisedIn.append
    (h : RaisedIn before i)
    (later : List Call) :
    RaisedIn (before ++ later) i := by
  rcases h with ⟨earlier, found, hPrefix, hEmits, hHas⟩
  exact ⟨earlier, found,
    hPrefix.trans (List.prefix_append before later), hEmits,
    hHas⟩

theorem raisedIn_concat_iff :
    RaisedIn (calls ++ [call]) i ↔
      RaisedIn calls i ∨
        ∃ diagnostic, call = .warnOnce diagnostic ∧
          Emits calls call ∧ diagnostic.ids.Has i := by
  constructor
  · intro ⟨earlier, found, hPrefix, hEmits, hHas⟩
    rcases List.prefix_concat_iff.1 hPrefix with hLast | hPrefix
    · rcases List.append_inj' hLast rfl with ⟨hEarlier, hCall⟩
      cases hCall
      rw [hEarlier] at hEmits
      exact .inr ⟨found, rfl, hEmits, hHas⟩
    · exact .inl ⟨earlier, found, hPrefix, hEmits, hHas⟩
  · intro h
    rcases h with h | ⟨found, hCall, hEmits, hHas⟩
    · exact h.append [call]
    · rw [hCall] at hEmits ⊢
      exact ⟨calls, found, List.prefix_refl _, hEmits, hHas⟩

theorem emits_warn_iff :
    Emits before (.warn diagnostic) ↔
      (after before).isEnabled diagnostic.ids = true := by
  rw [Emits, perform_warn]
  simp

theorem emits_warnOnce_iff :
    Emits before (.warnOnce diagnostic) ↔
      (after before).isEnabled diagnostic.ids = true ∧
        ¬ (after before).warned.contains diagnostic.ids =
          true := by
  rw [Emits, perform_warnOnce]
  constructor
  · intro h
    by_contra hNot
    rw [if_neg hNot] at h
    exact h rfl
  · intro h
    rw [if_pos h]
    simp

/- What is let through is the diagnostic that is raised. -/
theorem reports_of_emits
    (hCall : call = .warn diagnostic ∨
      call = .warnOnce diagnostic)
    (h : Emits before call) :
    ((after before).perform call).2 =
      [.diagnostic diagnostic] := by
  rcases hCall with hCall | hCall
  · rw [hCall, emits_warn_iff] at h
    rw [hCall, perform_warn]
    exact if_pos h
  · rw [hCall, emits_warnOnce_iff] at h
    rw [hCall, perform_warnOnce, if_pos h]

/- Only what is raised once and let through is noted. -/
theorem has_warned_after_iff :
    (after calls).warned.Has i ↔ RaisedIn calls i := by
  induction calls using List.reverseRecOn with
  | nil =>
      simp [after, fresh, RaisedIn, DiagnosticIds.not_has_empty]
  | append_singleton calls call ih =>
      rw [after_concat, raisedIn_concat_iff, ← ih]
      cases call with
      | warnOnce diagnostic =>
          simp only [emits_warnOnce_iff, perform_warnOnce,
            Call.warnOnce.injEq, exists_eq_left']
          by_cases hPass :
              (after calls).isEnabled diagnostic.ids = true ∧
                ¬ (after calls).warned.contains
                  diagnostic.ids = true
          · rw [if_pos hPass, DiagnosticIds.has_union_iff]
            simp only [hPass, Bool.false_eq_true,
              not_false_eq_true, true_and]
          · rw [if_neg hPass]
            tauto
      | _ =>
          simp [perform, receive, enable, suppress, enableAll,
            suppressAll, warn]

/- A set that is raised once passes if some id of it is new. -/
theorem emits_warnOnce_iff_exists_new :
    Emits before (.warnOnce diagnostic) ↔
      (∃ i, diagnostic.ids.Has i ∧
        (after before).enabled.Has i) ∧
        ¬ ∀ i, diagnostic.ids.Has i → RaisedIn before i := by
  simp only [emits_warnOnce_iff, isEnabled_iff,
    DiagnosticIds.contains_iff, has_warned_after_iff]

------------------------------------------------------------
-- Single Ids
------------------------------------------------------------

section

variable (hBit : i < 32) (hIds : diagnostic.ids = .flag i)

include hBit hIds

/- An id alone passes if it is enabled and new. -/
theorem emits_flag_iff :
    Emits before (.warnOnce diagnostic) ↔
      (after before).enabled.Has i ∧ ¬ RaisedIn before i := by
  simp only [emits_warnOnce_iff_exists_new, hIds,
    DiagnosticIds.has_flag_iff hBit, exists_eq_left,
    forall_eq]

/-
  Once an id alone was raised while it was enabled, it is in a
  set that was let through: its own, or an earlier one.
-/
theorem raisedIn_of_enabled
    (hEnabled : (after before).enabled.Has i) :
    RaisedIn (before ++ [.warnOnce diagnostic]) i := by
  by_cases hRaised : RaisedIn before i
  · exact hRaised.append _
  · apply raisedIn_concat_iff.2
    right
    refine ⟨diagnostic, rfl, ?_, ?_⟩
    · exact (emits_flag_iff hBit hIds).2 ⟨hEnabled, hRaised⟩
    · rw [hIds]
      exact (DiagnosticIds.has_flag_iff hBit).2 rfl

end

/-
  What passes, after any calls on a fresh sink. The enabled ids
  are those that were switched on last. A diagnostic passes if
  one of its ids is enabled, and one that is raised once only if
  its ids are not all in sets that were raised once and passed.

  So an id alone passes at most once, whatever is called after
  it: at the first call while it is enabled, unless it was in a
  set that passed.
-/
theorem emits_over_histories
    (before : List Call)
    (diagnostic : Diagnostic) :
    (∀ i, (after before).enabled.Has i ↔
      SwitchedOn (.enableAll :: before) i) ∧
      (Emits before (.warn diagnostic) ↔
        ∃ i, diagnostic.ids.Has i ∧
          (after before).enabled.Has i) ∧
      (Emits before (.warnOnce diagnostic) ↔
        (∃ i, diagnostic.ids.Has i ∧
          (after before).enabled.Has i) ∧
          ¬ ∀ i, diagnostic.ids.Has i → RaisedIn before i) ∧
      (∀ call,
        call = .warn diagnostic ∨ call = .warnOnce diagnostic →
        Emits before call →
        ((after before).perform call).2 =
          [.diagnostic diagnostic]) ∧
      ∀ i < 32, diagnostic.ids = .flag i →
        (Emits before (.warnOnce diagnostic) ↔
          (after before).enabled.Has i ∧
            (∀ earlier other,
              earlier ++ [.warnOnce other] <+: before →
              other.ids = .flag i →
              ¬ (after earlier).enabled.Has i) ∧
            ¬ RaisedIn before i) ∧
          (Emits before (.warnOnce diagnostic) →
            ∀ later other, other.ids = .flag i →
              ¬ Emits (before ++ .warnOnce diagnostic :: later)
                (.warnOnce other)) := by
  refine ⟨fun i => has_enabled_after_iff, ?_,
    emits_warnOnce_iff_exists_new, ?_, ?_⟩
  · rw [emits_warn_iff, isEnabled_iff]
  · intro call hCall hEmits
    exact reports_of_emits hCall hEmits
  · intro i hBit hIds
    constructor
    · rw [emits_flag_iff hBit hIds]
      constructor
      · intro ⟨hEnabled, hNew⟩
        refine ⟨hEnabled, ?_, hNew⟩
        intro earlier other hPrefix hOther hEarlier
        rcases hPrefix with ⟨rest, hBefore⟩
        apply hNew
        rw [← hBefore]
        apply RaisedIn.append
        exact raisedIn_of_enabled hBit hOther hEarlier
      · intro ⟨hEnabled, _, hNew⟩
        exact ⟨hEnabled, hNew⟩
    · intro hEmits later other hOther hAgain
      have hEnabled := ((emits_flag_iff hBit hIds).1 hEmits).1
      have hRaised :=
        (raisedIn_of_enabled hBit hIds hEnabled).append later
      rw [List.append_assoc, List.singleton_append] at hRaised
      exact ((emits_flag_iff hBit hOther).1 hAgain).2 hRaised

/- The diagnostic of a scan of all possible types. -/
def scan : Diagnostic :=
  ⟨"scan", .fullSchemaScan, .warning⟩

/-
  One that was suppressed at first passes once it is enabled,
  and then no more.
-/
theorem scan_passes_once :
    Emits
        [ .suppress .fullSchemaScan, .warnOnce scan,
          .enable .fullSchemaScan]
        (.warnOnce scan) ∧
      ¬ Emits
        [ .suppress .fullSchemaScan, .warnOnce scan,
          .enable .fullSchemaScan, .warnOnce scan, .warn scan,
          .suppressAll, .enableAll]
        (.warnOnce scan) := by
  have hSingle :=
    (emits_over_histories
      [ .suppress .fullSchemaScan, .warnOnce scan,
        .enable .fullSchemaScan] scan).2.2.2.2 3 (by decide) rfl
  have hFirst : Emits
      [ .suppress .fullSchemaScan, .warnOnce scan,
        .enable .fullSchemaScan] (.warnOnce scan) := by
    rw [Emits]
    decide
  exact ⟨hFirst, hSingle.2 hFirst
    [.warn scan, .suppressAll, .enableAll] scan rfl⟩

end Sink

end GraphQL
