import Mathlib.Data.List.Nodup
import Mathlib.Tactic.SplitIfs
import GraphQL.Json.CanonicalKey
import GraphQL.Json.Reader
import GraphQL.Proofs.Json.Alike
import GraphQL.Proofs.Results

/-
  What canonical keys tell.

  No text of a value is the beginning of a text of another
  value that goes on as the text of a larger value might. So
  the parts of a key can be told apart, and values with one key
  are alike. Values that are alike have one key if objects do
  not repeat members.

  Key definitions include:
    * `Json.Ends`: what may follow the text of a value
    * `Json.IsWord`: texts without structure
    * `Json.Separates`: codes that can be told from what follows
    * `Json.opening?`

  Main declarations:
    * `Json.Reader.string?_jsonQuoted`
    * `Json.separates_keyCode`
    * `Json.alike_of_canonicalKey_eq`
    * `Json.Alike.canonicalKey_eq`
    * `Json.canonicalKey_eq_iff`
-/

------------------------------------------------------------
-- Quoted Texts
------------------------------------------------------------

namespace GraphQL

open Text (hexDigits jsonEscape jsonQuoted)

namespace Json

namespace Reader

/- Four digits of a control character are read as its number. -/
theorem hex4?_hexDigits :
    ∀ n < 0x20, ∃ a b c d, hexDigits 4 n = [a, b, c, d] ∧
      hex4? a b c d = some n := by
  have hTable : ∀ n < 0x20,
      hexDigits 4 n =
          ['0', '0', Nat.digitChar (n / 16),
            Nat.digitChar (n % 16)] ∧
        hex4? '0' '0' (Nat.digitChar (n / 16))
          (Nat.digitChar (n % 16)) = some n := by
    decide
  exact fun n hLess => ⟨_, _, _, _, hTable n hLess⟩

/- An escape of one letter is read as what it stands for. -/
theorem string?_letter
    {letter value : Char}
    (rest : List Char)
    (hLetter : letter ≠ 'u')
    (hValue : escaped? letter = some value) :
    string? ('\\' :: letter :: rest) =
      (string? rest).map fun read =>
        (value :: read.1, read.2) := by
  rw [string?, hValue]
  · cases string? rest <;> rfl
  · intro a b c d rest' hEq
    exact absurd hEq hLetter

/- An escape of four digits is read as the character. -/
theorem string?_control
    {c : Char}
    (rest : List Char)
    (hControl : c.toNat < 0x20) :
    string? ('\\' :: 'u' :: (hexDigits 4 c.toNat ++ rest)) =
      (string? rest).map fun read => (c :: read.1, read.2) := by
  rcases hex4?_hexDigits c.toNat hControl with
    ⟨x, y, z, w, hDigits, hRead⟩
  have hPlane : c.toNat < 0xD800 ∨ 0xDFFF < c.toNat :=
    .inl (by omega)
  rw [hDigits]
  simp only [List.cons_append, List.nil_append]
  rw [string?, hRead]
  simp only [bind, Option.bind, if_pos hPlane, Char.ofNat_toNat]
  cases string? rest <;> rfl

/- Any other character is read as itself. -/
theorem string?_plain
    {c : Char}
    (rest : List Char)
    (hQuote : c ≠ '"')
    (hSlash : c ≠ '\\')
    (hControl : ¬ c.toNat < 0x20) :
    string? (c :: rest) =
      (string? rest).map fun read => (c :: read.1, read.2) := by
  rw [string?]
  · rw [if_neg hControl]
    cases string? rest <;> rfl
  all_goals simp_all

theorem string?_jsonEscape (c : Char) (rest : List Char) :
    string? (jsonEscape c ++ rest) =
      (string? rest).map fun read => (c :: read.1, read.2) := by
  have hChar (n : Nat) (h : c.toNat = n) : Char.ofNat n = c := by
    rw [← h, Char.ofNat_toNat]
  unfold jsonEscape
  split_ifs with hQuote hSlash hNewline hReturn hTab hBack hFeed
    hControl
  · exact string?_letter rest (by decide)
      (congrArg some hQuote.symm)
  · exact string?_letter rest (by decide)
      (congrArg some hSlash.symm)
  · exact string?_letter rest (by decide)
      (congrArg some hNewline.symm)
  · exact string?_letter rest (by decide)
      (congrArg some hReturn.symm)
  · exact string?_letter rest (by decide)
      (congrArg some hTab.symm)
  · exact string?_letter rest (by decide)
      (congrArg some (hChar _ hBack))
  · exact string?_letter rest (by decide)
      (congrArg some (hChar _ hFeed))
  · exact string?_control rest hControl
  · exact string?_plain rest hQuote hSlash hControl

/- A quoted text is read back, and what follows is left. -/
theorem string?_jsonQuoted (text rest : List Char) :
    string? (text.flatMap jsonEscape ++ '"' :: rest) =
      some (text, rest) := by
  induction text with
  | nil => rfl
  | cons c text ih =>
      rw [List.flatMap_cons, List.append_assoc,
        string?_jsonEscape, ih]
      rfl

end Reader

theorem toList_jsonQuoted (text : String) :
    (jsonQuoted text).toList =
      '"' :: (text.toList.flatMap jsonEscape ++ ['"']) := by
  rw [jsonQuoted, String.toList_ofList]

/- Where two quoted texts end can be told. -/
theorem jsonQuoted_append_inj
    {text text' : String}
    {rest rest' : List Char}
    (h : (jsonQuoted text).toList ++ rest =
      (jsonQuoted text').toList ++ rest') :
    text = text' ∧ rest = rest' := by
  simp only [toList_jsonQuoted, List.cons_append,
    List.append_assoc, List.nil_append, List.cons.injEq,
    true_and] at h
  have hRead := congrArg Reader.string? h
  simp only [Reader.string?_jsonQuoted, Option.some.injEq,
    Prod.mk.injEq, String.toList_inj] at hRead
  exact hRead

------------------------------------------------------------
-- Words
------------------------------------------------------------

/- Characters that end a value inside of a larger one. -/
def closes (c : Char) : Bool :=
  c == ',' || c == ']' || c == '\x7d'

/- What may follow the text of a value. -/
def Ends (rest : List Char) : Prop :=
  ∀ c ∈ rest.head?, closes c = true

/- Characters that open a string, an array or an object. -/
def opens (c : Char) : Bool :=
  c == '"' || c == '[' || c == '\x7b'

/- Texts without quotes, brackets, braces and commas. -/
def IsWord (text : List Char) : Prop :=
  text ≠ [] ∧
    ∀ c ∈ text, opens c = false ∧ closes c = false

theorem isWord_of_all
    {text : List Char}
    (hNonempty : text ≠ [])
    (h : (text.all fun c => !opens c && !closes c) = true) :
    IsWord text := by
  refine ⟨hNonempty, fun c hc => ?_⟩
  simpa using List.all_eq_true.1 h c hc

/- A word is what stands before the end. -/
theorem takeWhile_word
    {text rest : List Char}
    (hText : ∀ c ∈ text, closes c = false)
    (hRest : Ends rest) :
    (text ++ rest).takeWhile (fun c => !closes c) = text := by
  rw [List.takeWhile_append_of_pos (by simpa using hText)]
  cases rest with
  | nil => simp
  | cons c rest => simp [hRest c rfl]

/- Where two words end can be told. -/
theorem word_append_inj
    {text text' rest rest' : List Char}
    (hText : IsWord text)
    (hText' : IsWord text')
    (hRest : Ends rest)
    (hRest' : Ends rest')
    (h : text ++ rest = text' ++ rest') :
    text = text' ∧ rest = rest' := by
  have hSame : text = text' := by
    rw [← takeWhile_word (fun c hc => (hText.2 c hc).2) hRest, h,
      takeWhile_word (fun c hc => (hText'.2 c hc).2) hRest']
  exact ⟨hSame, List.append_cancel_left (hSame ▸ h)⟩

------------------------------------------------------------
-- Numbers
------------------------------------------------------------

/- Characters of the texts of numbers. -/
def isNumeric (c : Char) : Bool :=
  c.isDigit || ['-', '+', '.', 'e'].contains c

/- Texts of such characters. -/
def AllNumeric (text : List Char) : Prop :=
  ∀ c ∈ text, isNumeric c = true

theorem allNumeric_of_all
    {text : List Char}
    (h : text.all isNumeric = true) : AllNumeric text :=
  List.all_eq_true.1 h

theorem AllNumeric.append
    {text text' : List Char}
    (h : AllNumeric text)
    (h' : AllNumeric text') : AllNumeric (text ++ text') := by
  intro c hc
  rcases List.mem_append.1 hc with hLeft | hRight
  · exact h c hLeft
  · exact h' c hRight

theorem AllNumeric.of_subset
    {text text' : List Char}
    (h : AllNumeric text)
    (hSubset : text' ⊆ text) : AllNumeric text' :=
  fun c hc => h c (hSubset hc)

theorem allNumeric_digitsText (n : Nat) :
    AllNumeric (digitsText n) := by
  intro c hc
  have hDigit : c.isDigit = true :=
    Nat.isDigit_of_mem_toDigits (by decide) (by decide) hc
  simp [isNumeric, hDigit]

theorem digitsText_ne_nil (n : Nat) : digitsText n ≠ [] :=
  Nat.toDigits_ne_nil

theorem allNumeric_zeros (n : Nat) :
    AllNumeric (List.replicate n '0') := by
  intro c hc
  rw [List.eq_of_mem_replicate hc]
  decide

theorem allNumeric_sign (decimal : Decimal) :
    AllNumeric decimal.sign := by
  unfold Decimal.sign
  split
  · exact allNumeric_of_all (by decide)
  · exact allNumeric_of_all (by decide)

/- Positional texts are made of digits, a sign and a point. -/
theorem numeric_positional (decimal : Decimal) :
    (decimal.positional ['.', '0']).toList ≠ [] ∧
      AllNumeric (decimal.positional ['.', '0']).toList := by
  have hDigits := allNumeric_digitsText decimal.digits
  have hNonempty := digitsText_ne_nil decimal.digits
  have hPoint : AllNumeric ['.', '0'] :=
    allNumeric_of_all (by decide)
  unfold Decimal.positional
  simp only [String.toList_ofList]
  split_ifs with hWhole hPlaces
  · refine ⟨by simp [hNonempty], ?_⟩
    exact (allNumeric_sign decimal).append
      ((hDigits.append (allNumeric_zeros _)).append hPoint)
  · refine ⟨by simp, (allNumeric_sign decimal).append ?_⟩
    refine AllNumeric.append (AllNumeric.append ?_ ?_) ?_
    · exact hDigits.of_subset (List.take_subset _ _)
    · exact hPoint.of_subset (by simp)
    · exact hDigits.of_subset (List.drop_subset _ _)
  · refine ⟨by simp, (allNumeric_sign decimal).append ?_⟩
    refine AllNumeric.append (AllNumeric.append ?_ ?_) hDigits
    · exact hPoint.of_subset (by simp)
    · exact allNumeric_zeros _

/- Scientific ones have an exponent besides. -/
theorem numeric_scientific (decimal : Decimal) :
    decimal.scientific.toList ≠ [] ∧
      AllNumeric decimal.scientific.toList := by
  have hDigits := allNumeric_digitsText decimal.digits
  have hMarks : AllNumeric ['.', 'e', '-', '+'] :=
    allNumeric_of_all (by decide)
  have hExponent :=
    allNumeric_digitsText decimal.magnitude.natAbs
  have hSigned (negative : Prop) [Decidable negative] :
      AllNumeric ['e', if negative then '-' else '+'] := by
    apply hMarks.of_subset
    split <;> simp
  unfold Decimal.scientific
  simp only [String.toList_ofList]
  refine ⟨by simp, ?_⟩
  refine AllNumeric.append
    ((allNumeric_sign decimal).append ?_)
    ((hSigned (decimal.magnitude < 0)).append hExponent)
  generalize digitsText decimal.digits = text at hDigits ⊢
  rcases text with _ | ⟨digit, _ | ⟨next, rest⟩⟩
  · exact hDigits
  · exact hDigits
  · have hPoint : AllNumeric ['.'] := hMarks.of_subset (by simp)
    refine (hDigits.append hPoint).of_subset ?_
    intro c hc
    simp only [List.mem_cons, List.mem_append] at hc ⊢
    tauto

/- The text of a number is numeric, and not empty. -/
theorem Number.numeric_text (value : Number) :
    value.text.toList ≠ [] ∧ AllNumeric value.text.toList := by
  cases value with
  | integer n =>
      simp only [text, Int.toString_eq_repr, Int.repr_eq_if]
      have hMinus : AllNumeric ['-'] :=
        allNumeric_of_all (by decide)
      split
      · rw [Nat.toList_repr]
        exact ⟨digitsText_ne_nil _, allNumeric_digitsText _⟩
      · rw [String.toList_append, Nat.toList_repr]
        exact ⟨by simp,
          hMinus.append (allNumeric_digitsText _)⟩
  | fraction x =>
      unfold Number.text
      simp only
      split
      · exact numeric_positional _
      · exact numeric_scientific _

------------------------------------------------------------
-- Atoms
------------------------------------------------------------

/- Values without structure: null, Booleans and numbers. -/
inductive IsAtom : Json → Prop
  | null : IsAtom .null
  | bool (value : Bool) : IsAtom (.bool value)
  | number (value : Json.Number) : IsAtom (.number value)

theorem isWord_of_allNumeric
    {text : List Char}
    (hNonempty : text ≠ [])
    (h : AllNumeric text) : IsWord text := by
  refine ⟨hNonempty, fun c hc => ?_⟩
  have hNumeric := h c hc
  constructor
  · apply Bool.eq_false_iff.2
    intro hOpens
    simp only [opens, Bool.or_eq_true, beq_iff_eq] at hOpens
    rcases hOpens with (rfl | rfl) | rfl
    all_goals cases hNumeric
  · apply Bool.eq_false_iff.2
    intro hCloses
    simp only [closes, Bool.or_eq_true, beq_iff_eq] at hCloses
    rcases hCloses with (rfl | rfl) | rfl
    all_goals cases hNumeric

namespace IsAtom

variable {value value' : Json}

/- The key of an atom is its text. -/
theorem canonicalKey_eq (h : IsAtom value) :
    value.canonicalKey = value.text := by
  cases h <;> simp only [canonicalKey]

/- It is a word. -/
theorem isWord (h : IsAtom value) :
    IsWord value.canonicalKey.toList := by
  rw [h.canonicalKey_eq]
  cases h with
  | null => exact isWord_of_all (by decide) (by decide)
  | bool value =>
      cases value with
      | false => exact isWord_of_all (by decide) (by decide)
      | true => exact isWord_of_all (by decide) (by decide)
  | number value =>
      exact isWord_of_allNumeric value.numeric_text.1
        value.numeric_text.2

/- No text of a number has letters other than that of exponents. -/
theorem text_ne
    (value : Number)
    {word : String}
    (h : word.toList.all isNumeric = false) :
    value.text ≠ word := by
  rintro rfl
  rw [List.all_eq_true.2 value.numeric_text.2] at h
  cases h

/- Atoms of one key are alike. -/
theorem alike
    (hAtom : IsAtom value)
    (hAtom' : IsAtom value')
    (h : value.canonicalKey = value'.canonicalKey) :
    Alike value value' := by
  rw [hAtom.canonicalKey_eq, hAtom'.canonicalKey_eq] at h
  have hBool (value : Number) (b : Bool) :
      value.text ≠ text (.bool b) := by
    cases b <;> exact text_ne value (by decide)
  have hNull (value : Number) : value.text ≠ text .null :=
    text_ne value (by decide)
  cases hAtom with
  | null =>
      cases hAtom' with
      | null => exact .null
      | bool value' => cases value' <;> exact absurd h (by decide)
      | number value' => exact absurd h.symm (hNull value')
  | bool value =>
      cases hAtom' with
      | null => cases value <;> exact absurd h (by decide)
      | bool value' =>
          have hSame : value = value' := by
            revert h
            cases value <;> cases value' <;> decide
          exact hSame ▸ .bool value
      | number value' => exact absurd h.symm (hBool value' value)
  | number value =>
      cases hAtom' with
      | null => exact absurd h (hNull value)
      | bool value' => exact absurd h (hBool value value')
      | number value' =>
          simp only [text] at h
          exact .number h

end IsAtom

------------------------------------------------------------
-- Sequences
------------------------------------------------------------

variable {α : Type} {R : α → α → Prop} {code : α → List Char}

/-
  The code of something can be told from what follows it, and
  tells what it is a code of.
-/
def Separates
    (R : α → α → Prop)
    (code : α → List Char)
    (a : α) : Prop :=
  ∀ b rest rest', Ends rest → Ends rest' →
    code a ++ rest = code b ++ rest' → R a b ∧ rest = rest'

/- The first character of a code does not end it. -/
def Starts (code : α → List Char) : Prop :=
  ∀ a, ∃ c tail, code a = c :: tail ∧ closes c = false

/- A closing bracket or brace may follow, whatever it closes. -/
theorem ends_cons
    {c : Char}
    (h : closes c = true)
    (rest : List Char) : Ends (c :: rest) := by
  rintro _ ⟨⟩
  exact h

theorem intercalate_cons_eq (a : α) (as : List α) :
    [','].intercalate ((a :: as).map code) =
      code a ++ as.flatMap fun b => ',' :: code b := by
  induction as generalizing a with
  | nil => simp
  | cons b as ih =>
      rw [List.map_cons, List.map_cons,
        List.intercalate_cons_cons, ← List.map_cons, ih b]
      simp

/- Codes that follow commas can be told apart. -/
theorem forall₂_of_flatMap_eq
    {as bs : List α}
    {close : Char}
    {rest rest' : List Char}
    (hAll : ∀ a ∈ as, Separates R code a)
    (hClose : closes close = true)
    (hComma : close ≠ ',')
    (h : (as.flatMap fun a => ',' :: code a) ++ close :: rest =
      (bs.flatMap fun b => ',' :: code b) ++ close :: rest') :
    List.Forall₂ R as bs ∧ rest = rest' := by
  have hEnds (cs : List α) (rest : List Char) :
      Ends ((cs.flatMap fun c => ',' :: code c) ++
        close :: rest) := by
    cases cs with
    | nil => exact ends_cons hClose rest
    | cons c cs => exact ends_cons (by decide) _
  induction as generalizing bs with
  | nil =>
      cases bs with
      | nil => exact ⟨.nil, (List.cons.inj h).2⟩
      | cons b bs => exact absurd (List.cons.inj h).1 hComma
  | cons a as ih =>
      cases bs with
      | nil => exact absurd (List.cons.inj h).1.symm hComma
      | cons b bs =>
          simp only [List.flatMap_cons, List.cons_append,
            List.append_assoc, List.cons.injEq, true_and] at h
          rcases hAll a List.mem_cons_self b _ _
              (hEnds as rest) (hEnds bs rest') h with
            ⟨hFirst, hTail⟩
          rcases ih (fun other hOther => hAll other
              (List.mem_cons_of_mem a hOther)) hTail with
            ⟨hRest, hSame⟩
          exact ⟨.cons hFirst hRest, hSame⟩

/- So can codes that are separated by commas. -/
theorem forall₂_of_intercalate_eq
    {as bs : List α}
    {close : Char}
    {rest rest' : List Char}
    (hStarts : Starts code)
    (hAll : ∀ a ∈ as, Separates R code a)
    (hClose : closes close = true)
    (hComma : close ≠ ',')
    (h : [','].intercalate (as.map code) ++ close :: rest =
      [','].intercalate (bs.map code) ++ close :: rest') :
    List.Forall₂ R as bs ∧ rest = rest' := by
  have hNonempty (a : α) (cs rest : List Char) :
      code a ++ cs ≠ close :: rest := by
    rcases hStarts a with ⟨c, tail, hCode, hOpen⟩
    rw [hCode]
    intro hEq
    rw [(List.cons.inj hEq).1, hClose] at hOpen
    cases hOpen
  cases as with
  | nil =>
      cases bs with
      | nil => exact ⟨.nil, (List.cons.inj h).2⟩
      | cons b bs =>
          rw [intercalate_cons_eq, List.append_assoc] at h
          exact absurd h.symm (hNonempty b _ _)
  | cons a as =>
      cases bs with
      | nil =>
          rw [intercalate_cons_eq, List.append_assoc] at h
          exact absurd h (hNonempty a _ _)
      | cons b bs =>
          apply forall₂_of_flatMap_eq hAll hClose hComma
          simp only [intercalate_cons_eq] at h
          simp only [List.flatMap_cons, List.cons_append, h]

------------------------------------------------------------
-- Keys
------------------------------------------------------------

theorem itemKeys_eq_map (items : List Json) :
    itemKeys items = items.map canonicalKey := by
  induction items with
  | nil => rfl
  | cons item rest ih => rw [itemKeys, ih, List.map_cons]

theorem memberKeys_eq_map (members : List (String × Json)) :
    memberKeys members =
      members.map fun member =>
        (member.1, member.2.canonicalKey) := by
  induction members with
  | nil => rfl
  | cons member rest ih =>
      rcases member with ⟨name, value⟩
      rw [memberKeys, ih, List.map_cons]

/- Members in the order of their names. -/
def sortedMembers (members : List (String × Json)) :
    List (String × Json) :=
  members.mergeSort fun a b => a.1 ≤ b.1

theorem sortedMembers_perm (members : List (String × Json)) :
    (sortedMembers members).Perm members :=
  List.mergeSort_perm _ _

/- A member in a key. -/
def memberKey (member : String × Json) : String :=
  jsonQuoted member.1 ++ ":" ++ member.2.canonicalKey

theorem canonicalKey_object (members : List (String × Json)) :
    canonicalKey (.object members) =
      "\x7b" ++ ",".intercalate
        ((sortedMembers members).map memberKey) ++ "\x7d" := by
  rw [canonicalKey, memberKeys_eq_map]
  simp only [sortedMembers]
  rw [← List.map_mergeSort
    (r := fun a b : String × Json => decide (a.1 ≤ b.1))
    (fun _ _ _ _ => rfl), List.map_map]
  rfl

/- The code of a value is the list of characters of its key. -/
def keyCode (value : Json) : List Char :=
  value.canonicalKey.toList

def memberCode (member : String × Json) : List Char :=
  (memberKey member).toList

theorem keyCode_string (value : String) :
    keyCode (.string value) = (jsonQuoted value).toList := by
  rw [keyCode, canonicalKey, text]
  all_goals simp

theorem keyCode_array (items : List Json) :
    keyCode (.array items) =
      '[' :: ([','].intercalate (items.map keyCode) ++ [']']) := by
  rw [keyCode, canonicalKey, itemKeys_eq_map]
  simp [String.toList_intercalate, Function.comp_def]
  rfl

theorem keyCode_object (members : List (String × Json)) :
    keyCode (.object members) =
      '\x7b' :: ([','].intercalate
        ((sortedMembers members).map memberCode) ++ ['\x7d']) := by
  rw [keyCode, canonicalKey_object]
  simp [String.toList_intercalate, Function.comp_def]
  rfl

theorem memberCode_eq (member : String × Json) :
    memberCode member =
      (jsonQuoted member.1).toList ++
        ':' :: keyCode member.2 := by
  simp [memberCode, memberKey, keyCode]

/- The mark that opens a value, unless it is an atom. -/
def opening? : Json → Option Char
| string _ => some '"'
| array _ => some '['
| object _ => some '\x7b'
| _ => none

theorem isAtom_iff {value : Json} :
    IsAtom value ↔ value.opening? = none := by
  cases value with
  | null => exact iff_of_true .null rfl
  | bool value => exact iff_of_true (.bool value) rfl
  | number value => exact iff_of_true (.number value) rfl
  | _ => exact ⟨nofun, nofun⟩

/- A code begins with that mark, or with a part of a word. -/
theorem keyCode_cons (value : Json) :
    ∃ c tail, keyCode value = c :: tail ∧ closes c = false ∧
      value.opening? = if opens c then some c else none := by
  by_cases hAtom : IsAtom value
  · rcases hAtom.isWord with ⟨hNonempty, hWord⟩
    rcases List.exists_cons_of_ne_nil hNonempty with
      ⟨c, tail, hCode⟩
    have hFirst := hWord c (hCode ▸ List.mem_cons_self)
    refine ⟨c, tail, hCode, hFirst.2, ?_⟩
    rw [isAtom_iff.1 hAtom, hFirst.1]
    rfl
  · cases value with
    | null => exact absurd .null hAtom
    | bool value => exact absurd (.bool value) hAtom
    | number value => exact absurd (.number value) hAtom
    | string value =>
        have hCode := (keyCode_string value).trans
          (toList_jsonQuoted value)
        exact ⟨'"', _, hCode, by decide, rfl⟩
    | array items =>
        exact ⟨'[', _, keyCode_array items, by decide, rfl⟩
    | object members =>
        exact ⟨'\x7b', _, keyCode_object members, by decide, rfl⟩

/- Values of one code open in one way. -/
theorem opening?_eq
    {value value' : Json}
    {rest rest' : List Char}
    (h : keyCode value ++ rest = keyCode value' ++ rest') :
    value.opening? = value'.opening? := by
  rcases keyCode_cons value with ⟨c, tail, hCode, -, hOpening⟩
  rcases keyCode_cons value' with
    ⟨c', tail', hCode', -, hOpening'⟩
  rw [hCode, hCode'] at h
  rw [hOpening, hOpening', (List.cons.inj h).1]

theorem starts_keyCode : Starts keyCode := by
  intro value
  rcases keyCode_cons value with ⟨c, tail, hCode, hOpen, -⟩
  exact ⟨c, tail, hCode, hOpen⟩

theorem starts_memberCode : Starts memberCode := by
  intro member
  have hCode := memberCode_eq member
  rw [toList_jsonQuoted, List.cons_append] at hCode
  exact ⟨'"', _, hCode, by decide⟩

/- Objects are alike if their sorted members are. -/
theorem alike_object_of_sorted
    {members members' : List (String × Json)}
    (h : List.Forall₂ AlikeMember (sortedMembers members)
      (sortedMembers members')) :
    Alike (.object members) (.object members') := by
  have hMoved : Relation.Comp (List.Forall₂ AlikeMember)
      List.Perm (sortedMembers members) members' :=
    ⟨_, h, sortedMembers_perm members'⟩
  rw [List.forall₂_comp_perm_eq_perm_comp_forall₂] at hMoved
  rcases hMoved with ⟨arranged, hPerm, hMembers⟩
  exact alike_object_iff.2
    ⟨arranged, (sortedMembers_perm members).symm.trans hPerm,
      hMembers⟩

/- A member is told apart if its value is. -/
theorem separates_memberCode
    {member : String × Json}
    (h : Separates Alike keyCode member.2) :
    Separates AlikeMember memberCode member := by
  intro other rest rest' hRest hRest' hCode
  simp only [memberCode_eq, List.append_assoc,
    List.cons_append] at hCode
  rcases jsonQuoted_append_inj hCode with ⟨hName, hColon⟩
  rcases h other.2 rest rest' hRest hRest'
      (List.cons.inj hColon).2 with ⟨hValue, hSame⟩
  exact ⟨⟨hName, hValue⟩, hSame⟩

/- Atoms are words. -/
theorem separates_atom
    {value : Json}
    (h : IsAtom value) : Separates Alike keyCode value := by
  intro other rest rest' hRest hRest' hCode
  have hOther : IsAtom other :=
    isAtom_iff.2 (opening?_eq hCode ▸ isAtom_iff.1 h)
  rcases word_append_inj h.isWord hOther.isWord hRest hRest'
      hCode with ⟨hSame, hTail⟩
  exact ⟨h.alike hOther (String.toList_inj.1 hSame), hTail⟩

/- Strings end with a quotation mark. -/
theorem separates_string (value : String) :
    Separates Alike keyCode (.string value) := by
  intro other rest rest' _ _ hCode
  cases other with
  | string value' =>
      rw [keyCode_string, keyCode_string] at hCode
      rcases jsonQuoted_append_inj hCode with ⟨rfl, hTail⟩
      exact ⟨.string value, hTail⟩
  | _ => cases opening?_eq hCode

/- Arrays are told apart if their items are. -/
theorem separates_array
    {items : List Json}
    (h : ∀ item ∈ items, Separates Alike keyCode item) :
    Separates Alike keyCode (.array items) := by
  intro other rest rest' _ _ hCode
  cases other with
  | array items' =>
      simp only [keyCode_array, List.cons_append,
        List.append_assoc, List.nil_append, List.cons.injEq,
        true_and] at hCode
      rcases forall₂_of_intercalate_eq starts_keyCode h
          (by decide) (by decide) hCode with ⟨hItems, hTail⟩
      exact ⟨.array hItems, hTail⟩
  | _ => cases opening?_eq hCode

/- Objects are told apart if their members are. -/
theorem separates_object
    {members : List (String × Json)}
    (h : ∀ member ∈ members,
      Separates Alike keyCode member.2) :
    Separates Alike keyCode (.object members) := by
  have hSorted : ∀ member ∈ sortedMembers members,
      Separates AlikeMember memberCode member :=
    fun member hMember => separates_memberCode (h member
      ((sortedMembers_perm members).mem_iff.1 hMember))
  intro other rest rest' _ _ hCode
  cases other with
  | object members' =>
      simp only [keyCode_object, List.cons_append,
        List.append_assoc, List.nil_append, List.cons.injEq,
        true_and] at hCode
      rcases forall₂_of_intercalate_eq starts_memberCode hSorted
          (by decide) (by decide) hCode with
        ⟨hMembers, hTail⟩
      exact ⟨alike_object_of_sorted hMembers, hTail⟩
  | _ => cases opening?_eq hCode

/- Every value is told apart by its key. -/
theorem separates_keyCode (value : Json) :
    Separates Alike keyCode value := by
  induction value using Json.induct with
  | null => exact separates_atom .null
  | bool value => exact separates_atom (.bool value)
  | number value => exact separates_atom (.number value)
  | string value => exact separates_string value
  | array items ih => exact separates_array ih
  | object members ih => exact separates_object ih

/- Values of one key are alike. -/
theorem alike_of_canonicalKey_eq
    {value value' : Json}
    (h : value.canonicalKey = value'.canonicalKey) :
    Alike value value' :=
  (separates_keyCode value value' [] [] nofun nofun
    (by rw [keyCode, keyCode, h])).1

/- Entries of distinct names have one order by names. -/
theorem mergeSort_eq_of_perm
    {entries entries' : List (String × String)}
    (hPerm : entries.Perm entries')
    (hNames : (entries'.map Prod.fst).Nodup) :
    (entries.mergeSort fun a b => decide (a.1 ≤ b.1)) =
      entries'.mergeSort fun a b => decide (a.1 ≤ b.1) := by
  have hSorted :=
    @List.pairwise_mergeSort (String × String)
      (fun a b => decide (a.1 ≤ b.1))
      (fun a b c => by simpa using String.le_trans)
      (fun a b => by simpa using String.le_total a.1 b.1)
  apply List.Perm.eq_of_pairwise _ (hSorted entries)
    (hSorted entries')
  · exact (List.mergeSort_perm entries _).trans
      (hPerm.trans (List.mergeSort_perm entries' _).symm)
  · intro a b hA hB hLe hGe
    rw [List.mem_mergeSort] at hA hB
    exact List.inj_on_of_nodup_map hNames (hPerm.mem_iff.1 hA) hB
      (String.le_antisymm (by simpa using hLe)
        (by simpa using hGe))

/- Objects have one key if their members have. -/
theorem canonicalKey_object_eq
    {members members' : List (String × Json)}
    (hPerm : (memberKeys members).Perm (memberKeys members'))
    (hNames : (members'.map Prod.fst).Nodup) :
    canonicalKey (.object members) =
      canonicalKey (.object members') := by
  have hDistinct : ((memberKeys members').map Prod.fst).Nodup := by
    simpa [memberKeys_eq_map, Function.comp_def] using hNames
  rw [canonicalKey, canonicalKey,
    mergeSort_eq_of_perm hPerm hDistinct]

/-
  Alike values have one key: members that are sorted by their
  names have one order if no name is repeated.
-/
theorem Alike.canonicalKey_eq
    {value value' : Json}
    (h : Alike value value')
    (hProper : value'.Proper) :
    value.canonicalKey = value'.canonicalKey := by
  induction value using Json.induct generalizing value' with
  | null => cases h; rfl
  | bool value => cases h; rfl
  | number value =>
      cases h with
      | number hText =>
          rw [(IsAtom.number _).canonicalKey_eq,
            (IsAtom.number _).canonicalKey_eq, text, text, hText]
  | string value => cases h; rfl
  | array items ih =>
      rcases h with - | - | - | - | @⟨_, items', hItems⟩
      rcases hProper with - | - | - | - | hProperItems
      have hKeys : items.map canonicalKey =
          items'.map canonicalKey := by
        rw [← List.forall₂_eq_eq_eq,
          List.forall₂_map_left_iff, List.forall₂_map_right_iff]
        exact Results.forall₂_imp_of_mem hItems
          fun item hItem item' hItem' hAlike =>
            ih item hItem hAlike (hProperItems item' hItem')
      rw [canonicalKey, canonicalKey, itemKeys_eq_map,
        itemKeys_eq_map, hKeys]
  | object members ih =>
      rcases h with - | - | - | - | - |
        @⟨_, arranged, members', hPerm, hSame, hValues⟩
      rcases hProper with - | - | - | - | - |
        ⟨hNames, hProperMembers⟩
      have hKeys : memberKeys arranged = memberKeys members' := by
        rw [memberKeys_eq_map, memberKeys_eq_map,
          ← List.forall₂_eq_eq_eq,
          List.forall₂_map_left_iff, List.forall₂_map_right_iff]
        refine Results.forall₂_imp_of_mem
          (forall₂_alikeMember_iff.2 ⟨hSame, hValues⟩) ?_
        intro member hMember member' hMember' hAlike
        have hValue := ih member (hPerm.mem_iff.2 hMember)
          hAlike.value (hProperMembers member' hMember')
        rw [hAlike.name, hValue]
      refine canonicalKey_object_eq ?_ hNames
      rw [← hKeys, memberKeys_eq_map, memberKeys_eq_map]
      exact hPerm.map _

/-
  Two values have one key exactly if they are alike. It is
  enough that one of them does not repeat members.
-/
theorem canonicalKey_eq_iff
    {value value' : Json}
    (hProper : value'.Proper) :
    value.canonicalKey = value'.canonicalKey ↔
      Alike value value' := by
  constructor
  · intro hKey
    exact alike_of_canonicalKey_eq hKey
  · intro hAlike
    exact hAlike.canonicalKey_eq hProper

------------------------------------------------------------
-- Labels
------------------------------------------------------------

namespace Labels

/- Two marks, and one mark that is written much like them. -/
def marks : Json :=
  .array [.string "a", .string "b"]

def joined : Json :=
  .array [.string "a\",\"b"]

/- A label, and its members in another order at both levels. -/
def label : Json :=
  .object [("marks", marks),
    ("size", .object [("w", .ofInt 2), ("h", .ofInt 3)])]

def rearranged : Json :=
  .object [("size", .object [("h", .ofInt 3), ("w", .ofInt 2)]),
    ("marks", marks)]

theorem joined_proper : joined.Proper :=
  .array (by simpa using .string _)

theorem marks_proper : marks.Proper :=
  .array (by simpa using ⟨.string _, .string _⟩)

theorem rearranged_proper : rearranged.Proper := by
  have hSize : (Json.object
      [("h", .ofInt 3), ("w", .ofInt 2)]).Proper :=
    .object (by decide) (by simpa using ⟨.number _, .number _⟩)
  exact .object (by decide) (by simpa using ⟨hSize, marks_proper⟩)

theorem label_rearranged : Alike label rearranged := by
  have hSize : Alike
      (.object [("w", .ofInt 2), ("h", .ofInt 3)])
      (.object [("h", .ofInt 3), ("w", .ofInt 2)]) :=
    alike_object_iff.2
      ⟨_, .swap _ _ _, List.forall₂_same.2 fun _ _ => ⟨rfl, .refl _⟩⟩
  exact alike_object_iff.2 ⟨_, .swap _ _ _,
    .cons ⟨rfl, hSize⟩ (.cons ⟨rfl, .refl marks⟩ .nil)⟩

theorem marks_not_joined : ¬ Alike marks joined := by
  rintro (- | - | - | - | ⟨- | ⟨-, ⟨⟩⟩⟩)

/-
  The key of a label is that of the other order, and marks are
  not taken for one mark with quotes and commas in it.
-/
theorem keys_of_labels :
    (rearranged.Proper ∧ joined.Proper) ∧
    label.canonicalKey = rearranged.canonicalKey ∧
    marks.canonicalKey ≠ joined.canonicalKey := by
  refine ⟨⟨rearranged_proper, joined_proper⟩, ?_, ?_⟩
  · exact (canonicalKey_eq_iff rearranged_proper).2
      label_rearranged
  · exact mt (canonicalKey_eq_iff joined_proper).1
      marks_not_joined

end Labels

end Json

end GraphQL
