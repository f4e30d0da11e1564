import GraphQL.Schema.Basic

/-
  Coercion of arguments and variables.

  Literals and values are coerced to types; absent fields of
  input objects take their defaults. Defaults may lead to
  further defaults without end, so coercion spends fuel.

  Key definitions include:
    * `Coercion`
    * `Coercion.literal`, `Coercion.value`
    * `Coercion.arguments`, `Coercion.bindings`
-/

------------------------------------------------------------
-- Causes
------------------------------------------------------------

namespace GraphQL

/- Why an input is not a value of a type. -/
inductive InputError where
  | unsetVariable (name : String) (type : TypeRef)
  | nullLiteral (type : TypeRef)
  | nullValue (type : TypeRef)
  | notObject (type : String)
  | unknownField (field type : String)
  | nullField (type field : String) (ref : TypeRef)
  | missingField (type field : String) (ref : TypeRef)
  | notInput (kind : TypeKind) (type : String)
  | unknownType (type : String)
  | leaf (error : LeafError)
  deriving DecidableEq, Repr, Inhabited

/- The message of a failed coercion. -/
def InputError.message : InputError → String
| unsetVariable name type =>
    let type := type.text
    s!"Variable \"${name}\" of required type \"{type}\" was " ++
    "not provided."
| nullLiteral type =>
    let type := type.text
    s!"Expected value of non-null type \"{type}\" not to be " ++
    "null."
| nullValue type =>
    let type := type.text
    s!"Expected non-nullable type \"{type}\" not to be null."
| notObject type =>
    s!"Expected type \"{type}\" to be an object."
| unknownField field type =>
    s!"Field \"{field}\" is not defined by type \"{type}\"."
| nullField type field ref =>
    let ref := ref.text
    s!"Field \"{type}.{field}\" of non-null type \"{ref}\" " ++
    "must not be null."
| missingField type field ref =>
    let ref := ref.text
    s!"Field \"{type}.{field}\" of required type \"{ref}\" was " ++
    "not provided."
| notInput kind type =>
    let kind := kind.name
    s!"{kind} type \"{type}\" can not be used as an input type."
| unknownType type => s!"Unknown type \"{type}\"."
| leaf error => error.message

/- Why an argument of a field can not be coerced. -/
inductive ArgumentError where
  | unsetVariable (name : String) (type : TypeRef)
      (var : String)
  | invalid (name : String) (literal : Literal)
      (cause : InputError)
  | null (name : String) (type : TypeRef)
  | invalidDefault (name : String) (cause : InputError)
  | missing (name : String) (type : TypeRef)
  deriving Repr, Inhabited

/- The message of an argument that can not be coerced. -/
def ArgumentError.message : ArgumentError → String
| unsetVariable name type var =>
    let type := type.text
    s!"Argument \"{name}\" of required type \"{type}\" was " ++
    s!"provided the variable \"${var}\" which was not " ++
    "provided a runtime value."
| invalid name literal cause =>
    let literal := literal.text
    let cause := cause.message
    s!"Argument \"{name}\" has invalid value {literal}. {cause}"
| null name type =>
    let type := type.text
    s!"Argument \"{name}\" of non-null type \"{type}\" must " ++
    "not be null."
| invalidDefault name cause =>
    let cause := cause.message
    s!"Argument \"{name}\" has invalid default value. {cause}"
| missing name type =>
    let type := type.text
    s!"Argument \"{name}\" of required type \"{type}\" was not " ++
    "provided."

/- Why a variable of an operation can not be coerced. -/
inductive VariableError where
  | notInput (name : String) (type : TypeRef)
  | invalidDefault (name : String) (cause : InputError)
  | missing (name : String) (type : TypeRef)
  | null (name : String) (type : TypeRef)
  | invalid (name : String) (value : Json) (cause : InputError)
  deriving Repr, Inhabited

/- The message of a variable that can not be coerced. -/
def VariableError.message : VariableError → String
| notInput name type =>
    let type := type.text
    s!"Variable \"${name}\" expected value of type \"{type}\" " ++
    "which cannot be used as an input type."
| invalidDefault name cause =>
    let cause := cause.message
    s!"Variable \"${name}\" has invalid default value: {cause}"
| missing name type =>
    let type := type.text
    s!"Variable \"${name}\" of required type \"{type}\" was not " ++
    "provided."
| null name type =>
    let type := type.text
    s!"Variable \"${name}\" of non-null type \"{type}\" must " ++
    "not be null."
| invalid name value cause =>
    let value := value.text
    let cause := cause.message
    s!"Variable \"${name}\" got invalid value {value}; {cause}"

------------------------------------------------------------
-- Coercion
------------------------------------------------------------

/- A result or an error, or nothing when the fuel runs out. -/
abbrev Coercion (ε α : Type) := ExceptT ε Option α

namespace Coercion

/- The fuel has run out. -/
def exhausted {ε α : Type} : Coercion ε α :=
  ExceptT.mk none

/- Give another cause to an error. -/
def relabel {ε δ α : Type} (f : ε → δ) (c : Coercion ε α) :
    Coercion δ α :=
  ExceptT.mk (c.run.map fun result => result.mapError f)

/- The input type of a name. -/
def inputType (schema : Schema) (name : String) :
    Coercion InputError NamedType :=
  match schema.lookup name with
  | some type =>
      if type.isInput then
        pure type
      else
        throw (.notInput type.kind name)
  | none => throw (.unknownType name)

/- The outcome of coercing to a leaf type. -/
def ofLeaf (result : Except LeafError Json) :
    Coercion InputError Json :=
  match result with
  | .ok value => pure value
  | .error error => throw (.leaf error)

/- The field of an input object. -/
def inputField (type : InputObjectType) (name : String) :
    Coercion InputError InputValue :=
  match type.fields.get? name with
  | some field => pure field
  | none => throw (.unknownField name type.name)

/-
  The entry for a field, given the entries that the input has
  and the coercion of defaults.
-/
def completeField
    (fallback : TypeRef → Literal → Coercion InputError Json)
    (type : InputObjectType)
    (provided : Entries Json)
    (name : String)
    (field : InputValue) :
    Coercion InputError (Option (String × Json)) := do
  match provided.get? name with
  | some value =>
      if value.isNull && !field.type.nullable then
        throw (.nullField type.name name field.type)
      else
        return some (name, value)
  | none =>
      match field.default with
      | some literal =>
          return some (name, ← fallback field.type literal)
      | none =>
          if field.type.nullable then
            return none
          else
            throw (.missingField type.name name field.type)

/- The entries for all fields, in the order of the type. -/
def completeObject
    (fallback : TypeRef → Literal → Coercion InputError Json)
    (type : InputObjectType)
    (provided : Entries Json) : Coercion InputError Json := do
  let entries ← type.fields.mapM fun entry =>
    completeField fallback type provided entry.1 entry.2
  return .object (entries.filterMap id)

/- The value of a literal of a type. -/
def literal (schema : Schema) (bindings : Entries Json) :
    (fuel : Nat) → TypeRef → Literal → Coercion InputError Json
| 0, _, _ => exhausted
| fuel + 1, type, input =>
    match input with
    | .variable name =>
        match bindings.get? name with
        | some value => pure value
        | none =>
            if type.nullable then
              pure .null
            else
              throw (.unsetVariable name type)
    | .null =>
        if type.nullable then
          pure .null
        else
          throw (.nullLiteral type)
    | input =>
        match type with
        | .list inner _ _ =>
            match input with
            | .list items => do
                let items ←
                  items.mapM (literal schema bindings fuel inner)
                return .array items
            | item => do
                let item ←
                  literal schema bindings fuel inner item
                return .array [item]
        | .named name _ _ => do
            match ← inputType schema name with
            | .defined (.inputObject type) =>
                match input with
                | .object entries =>
                    let provided ← entries.mapM
                      fun (key, entry) => do
                        let field ← inputField type key
                        let value ←
                          literal schema bindings fuel
                            field.type entry
                        return (key, value)
                    completeObject
                      (literal schema bindings fuel) type
                      provided
                | _ => throw (.notObject type.name)
            | type => ofLeaf (type.parseLiteral input bindings)

/- The internal form of a value of a type. -/
def value (schema : Schema) :
    (fuel : Nat) → TypeRef → Json → Coercion InputError Json
| 0, _, _ => exhausted
| fuel + 1, type, input =>
    match input with
    | .null =>
        if type.nullable then
          pure .null
        else
          throw (.nullValue type)
    | input =>
        match type with
        | .list inner _ _ =>
            match input with
            | .array items => do
                let items ← items.mapM (value schema fuel inner)
                return .array items
            | item => do
                let item ← value schema fuel inner item
                return .array [item]
        | .named name _ _ => do
            match ← inputType schema name with
            | .defined (.inputObject type) =>
                match input with
                | .object entries =>
                    let provided ← entries.mapM
                      fun (key, entry) => do
                        let field ← inputField type key
                        let value ←
                          value schema fuel field.type entry
                        return (key, value)
                    completeObject (literal schema [] fuel) type
                      provided
                | _ => throw (.notObject type.name)
            | type => ofLeaf (type.parseValue input)

------------------------------------------------------------
-- Arguments
------------------------------------------------------------

/- Accept the value of an argument unless null is refused. -/
def acceptArgument (name : String) (type : TypeRef)
    (value : Json) :
    Coercion ArgumentError (Option (String × Json)) :=
  if value.isNull && !type.nullable then
    throw (.null name type)
  else
    pure (some (name, value))

/- The entry for an argument that is not given. -/
def absentArgument
    (schema : Schema)
    (bindings : Entries Json)
    (fuel : Nat)
    (name : String)
    (argument : InputValue) :
    Coercion ArgumentError (Option (String × Json)) := do
  match argument.default with
  | some input =>
      let value ← relabel (.invalidDefault name)
        (literal schema bindings fuel argument.type input)
      return some (name, value)
  | none =>
      if argument.type.nullable then
        return none
      else
        throw (.missing name argument.type)

/- The entry for an argument of a selected field. -/
def argument
    (schema : Schema)
    (bindings : Entries Json)
    (fuel : Nat)
    (given : Entries Literal)
    (name : String)
    (argument : InputValue) :
    Coercion ArgumentError (Option (String × Json)) := do
  let type := argument.type
  match given.get? name with
  | some (.variable var) =>
      match bindings.get? var with
      | some value => acceptArgument name type value
      | none =>
          if argument.isRequired then
            throw (.unsetVariable name type var)
          else
            absentArgument schema bindings fuel name argument
  | some input =>
      let value ← relabel (.invalid name input)
        (literal schema bindings fuel type input)
      acceptArgument name type value
  | none => absentArgument schema bindings fuel name argument

/- The arguments of a selected field, in declared order. -/
def arguments
    (schema : Schema)
    (bindings : Entries Json)
    (fuel : Nat)
    (field : OutputField)
    (given : Entries Literal) :
    Coercion ArgumentError (Entries Json) := do
  let entries ← field.arguments.mapM fun entry =>
    argument schema bindings fuel given entry.1 entry.2
  return entries.filterMap id

------------------------------------------------------------
-- Variables
------------------------------------------------------------

/- The type of a variable. -/
def variableType (definition : VariableDefinition) : TypeRef :=
  .ofExpr
    (.executable (.ofPosition none definition.position))
    definition.type

/- The entry for a variable of an operation. -/
def requestVariable
    (schema : Schema)
    (fuel : Nat)
    (inputs : Entries Json)
    (definition : VariableDefinition) :
    Coercion VariableError (Option (String × Json)) := do
  let name := definition.name
  let type := variableType definition
  let isInput :=
    match schema.lookup type.innermost with
    | some type => type.isInput
    | none => false
  if !isInput then
    throw (.notInput name type)
  else
    match inputs.get? name with
    | none =>
        match definition.default with
        | some input =>
            let value ← relabel (.invalidDefault name)
              (literal schema [] fuel type input)
            return some (name, value)
        | none =>
            if type.nullable then
              return none
            else
              throw (.missing name type)
    | some input =>
        if input.isNull && !type.nullable then
          throw (.null name type)
        else
          let value ← relabel (.invalid name input)
            (value schema fuel type input)
          return some (name, value)

/- An error of a variable with its place. -/
def variableError?
    (outcome : Position ×
      Except VariableError (Option (String × Json))) :
    Option (VariableError × Position) :=
  match outcome with
  | (pos, .error error) => some (error, pos)
  | (_, .ok _) => none

/- The entry of a variable. -/
def variableEntry?
    (outcome : Position ×
      Except VariableError (Option (String × Json))) :
    Option (String × Json) :=
  match outcome with
  | (_, .ok entry?) => entry?
  | (_, .error _) => none

/- The variables of an operation, or all their errors. -/
def bindings
    (schema : Schema)
    (fuel : Nat)
    (inputs : Entries Json)
    (definitions : List VariableDefinition) :
    Coercion (List (VariableError × Position))
      (Entries Json) := do
  let outcomes ← ExceptT.mk <| .map .ok <|
    definitions.mapM fun definition => do
      let outcome ←
        (requestVariable schema fuel inputs definition).run
      return (definition.position, outcome)
  let errors := outcomes.filterMap variableError?
  if errors.isEmpty then
    return Entries.ofList (outcomes.filterMap variableEntry?)
  else
    throw errors

end Coercion

end GraphQL
