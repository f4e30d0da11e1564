import GraphQL.Proofs.Json.CanonicalKeys
import GraphQL.Proofs.Schema.Covers

/-
  Names and internal values of enums.

  An internal value is written as the name of the first value
  that it is alike to, and a name is read as the internal value
  that it was declared with. So what is written is read as
  something alike, and what is read is written as the first
  name for it.

  Key definitions include:
    * `EnumType.First`

  Main declarations:
    * `EnumType.serialize_eq_ok_iff`
    * `EnumType.parseName_of_mem`
    * `EnumType.written_and_read`
-/

------------------------------------------------------------
-- Names
------------------------------------------------------------

namespace GraphQL

open Json (Alike)

namespace EnumType

variable {type : EnumType} {value : EnumValue}
variable {internal : Json} {name : String}

/- Values of a type without flaws have distinct names. -/
theorem nodup_of_flaw?_eq_none
    (h : (TypeDef.enum type).flaw? = none) :
    (type.values.map EnumValue.name).Nodup := by
  rw [TypeDef.flaw?, TypeFlaw.ofValues?_eq_none_iff] at h
  exact h.2.2

/- Every value is found by its name if names are distinct. -/
theorem value?_of_mem
    (hNames : (type.values.map EnumValue.name).Nodup)
    (hValue : value ∈ type.values) :
    type.value? value.name = some value := by
  have hFound : (type.value? value.name).isSome = true := by
    rw [value?, List.find?_isSome]
    exact ⟨value, hValue, by simp⟩
  rcases Option.isSome_iff_exists.1 hFound with ⟨found, hEq⟩
  have hName : found.name = value.name := by
    simpa using List.find?_some hEq
  have hSame := List.inj_on_of_nodup_map hNames
    (List.mem_of_find?_eq_some hEq) hValue hName
  rw [hEq, hSame]

/- Its name is read as its internal value. -/
theorem parseName_of_mem
    (hNames : (type.values.map EnumValue.name).Nodup)
    (hValue : value ∈ type.values) :
    type.parseName value.name = .ok value.value := by
  rw [parseName, value?_of_mem hNames hValue]

------------------------------------------------------------
-- Internal Values
------------------------------------------------------------

/- The first declared value that an internal value is alike to. -/
def First
    (type : EnumType)
    (internal : Json)
    (value : EnumValue) : Prop :=
  ∃ before after, type.values = before ++ value :: after ∧
    Alike value.value internal ∧
    ∀ other ∈ before, ¬ Alike other.value internal

theorem First.mem (h : type.First internal value) :
    value ∈ type.values := by
  rcases h with ⟨before, after, hValues, -, -⟩
  rw [hValues]
  exact List.mem_append_right _ List.mem_cons_self

/- Keys are equal exactly if the values are alike. -/
theorem key_eq_iff
    (hProper : internal.Proper) :
    (value.value.canonicalKey == internal.canonicalKey) = true ↔
      Alike value.value internal := by
  rw [beq_iff_eq]
  exact ⟨Json.alike_of_canonicalKey_eq,
    fun h => h.canonicalKey_eq hProper⟩

theorem internal?_eq_some_iff (hProper : internal.Proper) :
    type.internal? internal = some value ↔
      type.First internal value := by
  rw [internal?, List.find?_eq_some_iff_append,
    key_eq_iff hProper]
  constructor
  · rintro ⟨hAlike, before, after, hValues, hBefore⟩
    refine ⟨before, after, hValues, hAlike, ?_⟩
    intro other hOther hAlike
    have hDiffers := hBefore other hOther
    rw [(key_eq_iff hProper).2 hAlike] at hDiffers
    cases hDiffers
  · rintro ⟨before, after, hValues, hAlike, hBefore⟩
    refine ⟨hAlike, before, after, hValues, ?_⟩
    intro other hOther
    have hDiffers := mt (key_eq_iff hProper).1
      (hBefore other hOther)
    simpa using hDiffers

theorem internal?_eq_none_iff (hProper : internal.Proper) :
    type.internal? internal = none ↔
      ∀ value ∈ type.values, ¬ Alike value.value internal := by
  rw [internal?, List.find?_eq_none]
  exact forall₂_congr fun value _ =>
    not_congr (key_eq_iff hProper)

/- What is written is the name of the first such value. -/
theorem serialize_eq_ok_iff
    {output : Json}
    (hProper : internal.Proper) :
    type.serialize internal = .ok output ↔
      ∃ value, type.First internal value ∧
        output = .string value.name := by
  simp only [← internal?_eq_some_iff hProper]
  unfold serialize
  cases type.internal? internal with
  | none => simp
  | some value => simp [eq_comm]

/- Nothing is written if there is none. -/
theorem serialize_fails_iff (hProper : internal.Proper) :
    (∃ error, type.serialize internal = .error error) ↔
      ∀ value ∈ type.values, ¬ Alike value.value internal := by
  rw [← internal?_eq_none_iff hProper]
  unfold serialize
  cases type.internal? internal with
  | none => simp
  | some value => simp

/- A declared value is alike to itself, so some is the first. -/
theorem exists_first
    (hProper : value.value.Proper)
    (hValue : value ∈ type.values) :
    ∃ first, type.First value.value first := by
  cases hFound : type.internal? value.value with
  | some first =>
      exact ⟨first, (internal?_eq_some_iff hProper).1 hFound⟩
  | none =>
      have hNone := (internal?_eq_none_iff hProper).1 hFound
      exact absurd (.refl value.value) (hNone value hValue)

/-
  Writing and reading of an enum that passes its checks. An
  internal value is written as a name exactly if this is the
  name of the first value alike, and it is not written exactly
  if there is none. A name that is written is read, as runtime
  value and as literal, as an internal value alike. The name of
  each value is read as its internal value, and this is written
  as the first name for it.
-/
theorem written_and_read
    (type : EnumType)
    (hValid : (TypeDef.enum type).flaw? = none) :
    (∀ internal : Json, internal.Proper →
      (∀ output, type.serialize internal = .ok output ↔
        ∃ value, type.First internal value ∧
          output = .string value.name) ∧
      ((∃ error, type.serialize internal = .error error) ↔
        ∀ value ∈ type.values,
          ¬ Alike value.value internal) ∧
      ∀ name, type.serialize internal = .ok (.string name) →
        ∃ parsed,
          type.parseValue (.string name) = .ok parsed ∧
          type.parseLiteral (.enum name) = .ok parsed ∧
          Alike parsed internal) ∧
    ∀ value ∈ type.values,
      type.parseValue (.string value.name) = .ok value.value ∧
      (value.value.Proper →
        ∃ first, type.First value.value first ∧
          type.serialize value.value =
            .ok (.string first.name)) := by
  have hNames := nodup_of_flaw?_eq_none hValid
  refine ⟨?_, ?_⟩
  · intro internal hProper
    refine ⟨fun output => serialize_eq_ok_iff hProper,
      serialize_fails_iff hProper, ?_⟩
    intro name hName
    rcases (serialize_eq_ok_iff hProper).1 hName with
      ⟨value, hFirst, hOutput⟩
    cases hOutput
    have hRead := parseName_of_mem hNames hFirst.mem
    rcases hFirst with ⟨before, after, -, hAlike, -⟩
    exact ⟨value.value, hRead, hRead, hAlike⟩
  · intro value hValue
    refine ⟨parseName_of_mem hNames hValue, ?_⟩
    intro hProper
    rcases exists_first hProper hValue with ⟨first, hFirst⟩
    exact ⟨first, hFirst,
      (serialize_eq_ok_iff hProper).2 ⟨first, hFirst, rfl⟩⟩

end EnumType

------------------------------------------------------------
-- A Palette
------------------------------------------------------------

namespace Palette

/- Two colors with one internal value, up to the order of parts. -/
def red : EnumValue :=
  ⟨"RED", .object [("r", .ofInt 255), ("b", .ofInt 0)],
    none, none, .programmatic, []⟩

def scarlet : EnumValue :=
  ⟨"SCARLET", .object [("b", .ofInt 0), ("r", .ofInt 255)],
    none, none, .programmatic, []⟩

def color : EnumType :=
  ⟨.ofName "Color", [red, scarlet]⟩

theorem color_flaw? : (TypeDef.enum color).flaw? = none := by
  decide

theorem scarlet_proper : scarlet.value.Proper :=
  .object (by decide) (by simpa using ⟨.number _, .number _⟩)

theorem red_first : color.First scarlet.value red := by
  refine ⟨[], [scarlet], rfl, ?_, by simp⟩
  exact Json.alike_object_iff.2
    ⟨_, .swap _ _ _, List.forall₂_same.2 fun _ _ => ⟨rfl, .refl _⟩⟩

/-
  The later color is written as the earlier one, whose name is
  read as something alike, and its own name as what it is.
-/
theorem scarlet_written_as_red :
    ((TypeDef.enum color).flaw? = none ∧
      scarlet.value.Proper ∧ scarlet ∈ color.values) ∧
    color.serialize scarlet.value = .ok (.string "RED") ∧
    (∃ parsed, color.parseLiteral (.enum "RED") = .ok parsed ∧
      Alike parsed scarlet.value) ∧
    color.parseValue (.string "SCARLET") =
      .ok scarlet.value := by
  rcases EnumType.written_and_read color color_flaw? with
    ⟨hWritten, hRead⟩
  rcases hWritten scarlet.value scarlet_proper with
    ⟨hOutput, -, hNames⟩
  have hRed := (hOutput (.string "RED")).2 ⟨red, red_first, rfl⟩
  rcases hNames "RED" hRed with ⟨parsed, -, hLiteral, hAlike⟩
  have hMem : scarlet ∈ color.values := by simp [color]
  exact ⟨⟨color_flaw?, scarlet_proper, hMem⟩, hRed,
    ⟨parsed, hLiteral, hAlike⟩, (hRead scarlet hMem).1⟩

end Palette

end GraphQL
