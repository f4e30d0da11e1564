import Mathlib.Data.List.Forall2
import Mathlib.Data.List.Perm.Basic

/-
  Results of computations that may fail.

  Computations are the same up to a relation if one succeeds
  exactly when the other does, and their values are related.
  Which failure they end with does not matter.

  Key definitions include:
    * `Results.Fails`
    * `Results.Same`

  Main declarations:
    * `Results.bind_eq_ok_iff`
    * `Results.foldlM_keeps`, `Results.foldlM_reaches`
    * `Results.exists_foldlM_of_related`
    * `Results.Same.bind`
    * `Results.same_foldlM`, `Results.same_foldlM_of_perm`
    * `Results.same_foldlM_picked_of_perm`
-/

------------------------------------------------------------
-- Sequences
------------------------------------------------------------

namespace GraphQL

namespace Results

variable {ε α β γ δ : Type}

/- A sequence succeeds exactly if each of its parts does. -/
theorem bind_eq_ok_iff
    {first : Except ε α}
    {next : α → Except ε β}
    {result : β} :
    (first >>= next) = .ok result ↔
      ∃ value, first = .ok value ∧ next value = .ok result := by
  cases first with
  | error error => simp [bind, Except.bind]
  | ok value => simp [bind, Except.bind]

/- What is paired with the same list is paired. -/
theorem forall₂_comp
    {R : α → β → Prop}
    {S : β → γ → Prop}
    {T : α → γ → Prop}
    {as : List α}
    {bs : List β}
    {cs : List γ}
    (h : List.Forall₂ R as bs)
    (h' : List.Forall₂ S bs cs)
    (hStep : ∀ a b c, R a b → S b c → T a c) :
    List.Forall₂ T as cs := by
  induction h generalizing cs with
  | nil =>
      cases h'
      exact .nil
  | cons hFirst hRest ih =>
      cases h' with
      | cons hFirst' hRest' =>
          exact .cons (hStep _ _ _ hFirst hFirst') (ih hRest')

/- What is paired is related as its members allow. -/
theorem forall₂_imp_of_mem
    {R S : α → β → Prop}
    {as : List α}
    {bs : List β}
    (h : List.Forall₂ R as bs)
    (hStep : ∀ a ∈ as, ∀ b ∈ bs, R a b → S a b) :
    List.Forall₂ S as bs := by
  induction h with
  | nil => exact .nil
  | cons hFirst hRest ih =>
      refine .cons (hStep _ (by simp) _ (by simp) hFirst) (ih ?_)
      intro a hA b hB
      exact hStep a (by simp [hA]) b (by simp [hB])

/- What stands on the right of a pairing is paired. -/
theorem exists_of_forall₂_of_mem
    {Pair : α → β → Prop}
    {members : List α}
    {values : List β}
    (h : List.Forall₂ Pair members values)
    {b : β}
    (hb : b ∈ values) :
    ∃ a ∈ members, Pair a b := by
  induction h with
  | nil => exact absurd hb (by simp)
  | @cons a c members values hPair hRest ih =>
      rcases List.mem_cons.1 hb with rfl | hLater
      · exact ⟨a, List.mem_cons_self, hPair⟩
      · rcases ih hLater with ⟨other, hOther, hFound⟩
        exact ⟨other, List.mem_cons_of_mem a hOther, hFound⟩

/- Steps that each add no more than they give add no more. -/
theorem foldlM_measure_le
    {step : α → β → Except ε α}
    (measure : α → Nat)
    (given : β → List γ)
    (hStep : ∀ state item next, step state item = .ok next →
      measure next ≤ measure state + (given item).length)
    {items : List β}
    {state last : α}
    (h : items.foldlM step state = .ok last) :
    measure last ≤
      measure state + (items.flatMap given).length := by
  induction items generalizing state with
  | nil =>
      cases h
      simp
  | cons item rest ih =>
      rw [List.foldlM_cons] at h
      rcases bind_eq_ok_iff.1 h with ⟨next, hNext, hRest⟩
      have hFirst := hStep _ _ _ hNext
      have hLater := ih hRest
      rw [List.flatMap_cons, List.length_append]
      omega

/- What every step with an item keeps holds in the end. -/
theorem foldlM_keeps_of_mem
    {step : α → β → Except ε α}
    {Property : α → Prop}
    {items : List β}
    (hStep : ∀ item ∈ items, ∀ state next,
      step state item = .ok next → Property state →
      Property next)
    {state last : α}
    (h : items.foldlM step state = .ok last)
    (hState : Property state) : Property last := by
  induction items generalizing state with
  | nil =>
      cases h
      exact hState
  | cons item rest ih =>
      rw [List.foldlM_cons] at h
      rcases bind_eq_ok_iff.1 h with ⟨next, hNext, hRest⟩
      refine ih ?_ hRest
        (hStep item List.mem_cons_self state next hNext hState)
      intro other hOther
      exact hStep other (List.mem_cons_of_mem item hOther)

/- What every step keeps holds in the end. -/
theorem foldlM_keeps
    {step : α → β → Except ε α}
    {Property : α → Prop}
    (hStep : ∀ state item next,
      step state item = .ok next → Property state →
      Property next)
    {items : List β}
    {state last : α}
    (h : items.foldlM step state = .ok last)
    (hState : Property state) : Property last :=
  foldlM_keeps_of_mem
    (fun item _ state next => hStep state item next) h hState

/- What one step brings about and all others keep. -/
theorem foldlM_reaches
    {step : α → β → Except ε α}
    {Property : α → Prop}
    {items : List β}
    {item : β}
    (hItem : item ∈ items)
    (hReach : ∀ state next, step state item = .ok next →
      Property next)
    (hStep : ∀ state item next,
      step state item = .ok next → Property state →
      Property next)
    {state last : α}
    (h : items.foldlM step state = .ok last) : Property last := by
  induction items generalizing state with
  | nil => cases hItem
  | cons first rest ih =>
      rw [List.foldlM_cons] at h
      rcases bind_eq_ok_iff.1 h with ⟨next, hNext, hRest⟩
      rcases List.mem_cons.1 hItem with rfl | hLater
      · exact foldlM_keeps hStep hRest (hReach _ _ hNext)
      · exact ih hLater hRest

/- Steps that are answered by related ones, item by item. -/
theorem exists_foldlM_of_related
    {step : α → γ → Except ε α}
    {step' : β → γ → Except ε β}
    {Relate : α → β → Prop}
    {items : List γ}
    (hStep : ∀ item ∈ items, ∀ state state' next,
      Relate state state' → step state item = .ok next →
      ∃ next', step' state' item = .ok next' ∧
        Relate next next')
    {state last : α}
    {state' : β}
    (hState : Relate state state')
    (h : items.foldlM step state = .ok last) :
    ∃ last', items.foldlM step' state' = .ok last' ∧
      Relate last last' := by
  induction items generalizing state state' with
  | nil =>
      cases h
      exact ⟨state', rfl, hState⟩
  | cons item rest ih =>
      rw [List.foldlM_cons] at h
      rcases bind_eq_ok_iff.1 h with ⟨next, hNext, hRest⟩
      rcases hStep item List.mem_cons_self _ _ _ hState hNext with
        ⟨next', hNext', hRelate⟩
      rcases ih
          (fun other hOther =>
            hStep other (List.mem_cons_of_mem item hOther))
          hRelate hRest with
        ⟨last', hLast', hLasts⟩
      refine ⟨last', ?_, hLasts⟩
      rw [List.foldlM_cons, hNext']
      exact hLast'

/- A check of all items passes exactly if each one does. -/
theorem forM_eq_ok_iff
    {check : α → Except ε PUnit}
    {items : List α}
    {done : PUnit} :
    items.forM check = .ok done ↔
      ∀ item ∈ items, check item = .ok () := by
  induction items with
  | nil => simp [pure, Except.pure]
  | cons item rest ih =>
      have hCons : (item :: rest).forM check =
          (check item >>= fun _ => rest.forM check) := rfl
      rw [hCons, bind_eq_ok_iff, List.forall_mem_cons, ← ih]
      constructor
      · rintro ⟨⟨⟩, hItem, hRest⟩
        exact ⟨hItem, hRest⟩
      · rintro ⟨hItem, hRest⟩
        exact ⟨(), hItem, hRest⟩

------------------------------------------------------------
-- Failures
------------------------------------------------------------

/- Whatever failure a computation ends with has a property. -/
def Fails (Property : ε → Prop) (result : Except ε α) : Prop :=
  ∀ error, result = .error error → Property error

namespace Fails

variable {Property : ε → Prop}

theorem ok (value : α) :
    Fails Property (.ok value : Except ε α) := by
  intro error h
  cases h

theorem error {error : ε} (h : Property error) :
    Fails Property (.error error : Except ε α) := by
  rintro _ ⟨⟩
  exact h

theorem bind
    {first : Except ε α}
    {next : α → Except ε β}
    (h : Fails Property first)
    (hNext : ∀ value, first = .ok value →
      Fails Property (next value)) :
    Fails Property (first >>= next) := by
  cases hFirst : first with
  | error error =>
      rintro _ ⟨⟩
      exact h error hFirst
  | ok value => exact hNext value hFirst

theorem foldlM
    {step : α → β → Except ε α}
    (hStep : ∀ state item, Fails Property (step state item))
    (items : List β)
    (state : α) : Fails Property (items.foldlM step state) := by
  induction items generalizing state with
  | nil => exact .ok state
  | cons item rest ih =>
      rw [List.foldlM_cons]
      exact (hStep state item).bind fun next _ => ih next

end Fails

------------------------------------------------------------
-- Sameness
------------------------------------------------------------

/- Both succeed, with related values, or neither does. -/
def Same
    (Related : α → β → Prop)
    (first : Except ε α)
    (second : Except ε β) : Prop :=
  (∀ a, first = .ok a → ∃ b, second = .ok b ∧ Related a b) ∧
    ∀ b, second = .ok b → ∃ a, first = .ok a ∧ Related a b

namespace Same

variable {Related : α → β → Prop}
variable {first : Except ε α} {second : Except ε β}

/- Related values are the same results. -/
theorem ok
    {a : α}
    {b : β}
    (h : Related a b) :
    Same Related (.ok a : Except ε α) (.ok b) := by
  refine ⟨?_, ?_⟩
  · rintro _ ⟨⟩
    exact ⟨b, rfl, h⟩
  · rintro _ ⟨⟩
    exact ⟨a, rfl, h⟩

/- Failures are the same results. -/
theorem failed
    (hFirst : ∀ a, first ≠ .ok a)
    (hSecond : ∀ b, second ≠ .ok b) :
    Same Related first second := by
  refine ⟨?_, ?_⟩
  · intro a ha
    exact absurd ha (hFirst a)
  · intro b hb
    exact absurd hb (hSecond b)

theorem refl
    {Like : α → α → Prop}
    (hLike : ∀ a, Like a a)
    (first : Except ε α) : Same Like first first := by
  refine ⟨?_, ?_⟩
  · intro a ha
    exact ⟨a, ha, hLike a⟩
  · intro a ha
    exact ⟨a, ha, hLike a⟩

theorem symm
    {Converse : β → α → Prop}
    (h : Same Related first second)
    (hConverse : ∀ a b, Related a b → Converse b a) :
    Same Converse second first := by
  refine ⟨?_, ?_⟩
  · intro b hb
    rcases h.2 b hb with ⟨a, ha, hab⟩
    exact ⟨a, ha, hConverse a b hab⟩
  · intro a ha
    rcases h.1 a ha with ⟨b, hb, hab⟩
    exact ⟨b, hb, hConverse a b hab⟩

theorem trans
    {Next : β → γ → Prop}
    {Whole : α → γ → Prop}
    {third : Except ε γ}
    (hFirst : Same Related first second)
    (hSecond : Same Next second third)
    (hWhole : ∀ a b c, Related a b → Next b c → Whole a c) :
    Same Whole first third := by
  refine ⟨?_, ?_⟩
  · intro a ha
    rcases hFirst.1 a ha with ⟨b, hb, hab⟩
    rcases hSecond.1 b hb with ⟨c, hc, hbc⟩
    exact ⟨c, hc, hWhole a b c hab hbc⟩
  · intro c hc
    rcases hSecond.2 c hc with ⟨b, hb, hbc⟩
    rcases hFirst.2 b hb with ⟨a, ha, hab⟩
    exact ⟨a, ha, hWhole a b c hab hbc⟩

/- The same computation may be put in front. -/
theorem eq_trans
    {second : Except ε α}
    {third : Except ε β}
    (hFirst : Same Eq first second)
    (hSecond : Same Related second third) :
    Same Related first third := by
  apply hFirst.trans hSecond
  rintro a _ c rfl hac
  exact hac

/- The same computation may be put behind. -/
theorem trans_eq
    {third : Except ε β}
    (hFirst : Same Related first second)
    (hSecond : Same Eq second third) :
    Same Related first third := by
  apply hFirst.trans hSecond
  rintro a b _ hab rfl
  exact hab

/-
  Computations from data that are close are the same if what
  one of them gives is like what the other one gives.
-/
theorem of_symmetric
    {Like : α → α → Prop}
    (Close : γ → γ → Prop)
    (compute : γ → Except ε α)
    (hLike : Equivalence Like)
    (hClose : ∀ c d, Close c d → Close d c)
    (h : ∀ c d a, Close c d → compute c = .ok a →
      ∃ b, compute d = .ok b ∧ Like a b)
    {c d : γ}
    (hData : Close c d) :
    Same Like (compute c) (compute d) := by
  refine ⟨fun a ha => h c d a hData ha, ?_⟩
  intro b hb
  rcases h d c b (hClose c d hData) hb with ⟨a, ha, hba⟩
  exact ⟨a, ha, hLike.symm hba⟩

/- Computations that succeed alike are the same. -/
theorem of_ok_iff
    {second : Except ε α}
    (h : ∀ a, first = .ok a ↔ second = .ok a) :
    Same Eq first second := by
  refine ⟨?_, ?_⟩
  · intro a ha
    exact ⟨a, (h a).1 ha, rfl⟩
  · intro a ha
    exact ⟨a, (h a).2 ha, rfl⟩

/- Sequences of the same computations are the same. -/
theorem bind
    {Last : γ → δ → Prop}
    {next : α → Except ε γ}
    {next' : β → Except ε δ}
    (h : Same Related first second)
    (hNext : ∀ a b, first = .ok a → second = .ok b →
      Related a b → Same Last (next a) (next' b)) :
    Same Last (first >>= next) (second >>= next') := by
  refine ⟨?_, ?_⟩
  · intro c hc
    rcases bind_eq_ok_iff.1 hc with ⟨a, ha, hLast⟩
    rcases h.1 a ha with ⟨b, hb, hab⟩
    rcases (hNext a b ha hb hab).1 c hLast with ⟨d, hd, hcd⟩
    exact ⟨d, bind_eq_ok_iff.2 ⟨b, hb, hd⟩, hcd⟩
  · intro d hd
    rcases bind_eq_ok_iff.1 hd with ⟨b, hb, hLast⟩
    rcases h.2 b hb with ⟨a, ha, hab⟩
    rcases (hNext a b ha hb hab).2 d hLast with ⟨c, hc, hcd⟩
    exact ⟨c, bind_eq_ok_iff.2 ⟨a, ha, hc⟩, hcd⟩

/- Sequences that start with one computation. -/
theorem bind_left
    {Last : γ → δ → Prop}
    {next : α → Except ε γ}
    {next' : α → Except ε δ}
    (hNext : ∀ a, first = .ok a →
      Same Last (next a) (next' a)) :
    Same Last (first >>= next) (first >>= next') := by
  apply bind (refl (fun a => rfl) first)
  rintro a _ ha - rfl
  exact hNext a ha

/- The same computation may follow. -/
theorem bind_right
    {second : Except ε α}
    (h : Same Eq first second)
    (next : α → Except ε γ) :
    Same Eq (first >>= next) (second >>= next) := by
  apply h.bind
  rintro a _ - - rfl
  exact refl (fun _ => rfl) (next a)

end Same

------------------------------------------------------------
-- Order
------------------------------------------------------------

/- Steps by related items lead from related states to such. -/
theorem same_foldlM_of_forall₂
    {Like : α → γ → Prop}
    {Pair : β → δ → Prop}
    {step : α → β → Except ε α}
    {step' : γ → δ → Except ε γ}
    (hRespects : ∀ state state' item item',
      Like state state' → Pair item item' →
      Same Like (step state item) (step' state' item'))
    {items : List β}
    {items' : List δ}
    (hItems : List.Forall₂ Pair items items')
    {state : α}
    {state' : γ}
    (hState : Like state state') :
    Same Like (items.foldlM step state)
      (items'.foldlM step' state') := by
  induction hItems generalizing state state' with
  | nil => exact .ok hState
  | @cons item item' rest rest' hItem _ ih =>
      rw [List.foldlM_cons, List.foldlM_cons]
      apply (hRespects state state' item item' hState hItem).bind
      intro next next' _ _ hNext
      exact ih hNext

/- Steps that respect a relation lead to related states. -/
theorem same_foldlM
    {Like : α → γ → Prop}
    {step : α → β → Except ε α}
    {step' : γ → β → Except ε γ}
    (hRespects : ∀ state state' item, Like state state' →
      Same Like (step state item) (step' state' item))
    (items : List β)
    {state : α}
    {state' : γ}
    (hState : Like state state') :
    Same Like (items.foldlM step state)
      (items.foldlM step' state') := by
  have hItems : List.Forall₂ Eq items items :=
    List.forall₂_refl items
  refine same_foldlM_of_forall₂ ?_ hItems hState
  rintro state state' item _ hState rfl
  exact hRespects state state' item hState

/-
  Steps that respect a relation and commute up to it may be
  taken in any order.
-/
theorem same_foldlM_of_perm
    {Like : α → α → Prop}
    (hLike : Equivalence Like)
    {step : α → β → Except ε α}
    (hRespects : ∀ state state' item, Like state state' →
      Same Like (step state item) (step state' item))
    (hCommute : ∀ state a b,
      Same Like (step state a >>= fun state => step state b)
        (step state b >>= fun state => step state a))
    {items items' : List β}
    (hPerm : items.Perm items')
    {state state' : α}
    (hState : Like state state') :
    Same Like (items.foldlM step state)
      (items'.foldlM step state') := by
  induction hPerm generalizing state state' with
  | nil => exact .ok hState
  | cons item hRest ih =>
      rw [List.foldlM_cons, List.foldlM_cons]
      apply (hRespects state state' item hState).bind
      intro next next' _ _ hNext
      exact ih hNext
  | swap a b rest =>
      have hFirst :
          Same Like (step state b >>= fun state => step state a)
            (step state' b >>= fun state => step state a) := by
        apply (hRespects state state' b hState).bind
        intro next next' _ _ hNext
        exact hRespects next next' a hNext
      have hBoth := hFirst.trans (hCommute state' b a)
        fun _ _ _ => hLike.trans
      simp only [List.foldlM_cons, ← bind_assoc]
      apply hBoth.bind
      intro next next' _ _ hNext
      exact same_foldlM hRespects rest hNext
  | trans _ _ ih ih' =>
      exact (ih hState).trans (ih' (hLike.refl state'))
        fun _ _ _ => hLike.trans

/-
  Steps that pass over all but some items lead to related states
  in any order, if they do so for these items.
-/
theorem same_foldlM_picked_of_perm
    {Like : α → α → Prop}
    {step : α → β → Except ε α}
    {pick : β → Option γ}
    {item : γ → β}
    (hPicked : ∀ b c, pick b = some c → b = item c)
    (hOther : ∀ state b, pick b = none →
      step state b = pure state)
    (hLike : Equivalence Like)
    (hRespects : ∀ state state' c, Like state state' →
      Same Like (step state (item c)) (step state' (item c)))
    (hCommute : ∀ state a b,
      Same Like
        (step state (item a) >>= fun state =>
          step state (item b))
        (step state (item b) >>= fun state =>
          step state (item a)))
    {items items' : List β}
    (hPerm : items.Perm items')
    {state state' : α}
    (hState : Like state state') :
    Same Like (items.foldlM step state)
      (items'.foldlM step state') := by
  have hPicks : ∀ (items : List β) (state : α),
      items.foldlM step state =
        (items.filterMap pick).foldlM
          (fun state c => step state (item c)) state := by
    intro items state
    rw [List.foldlM_filterMap]
    congr 1
    funext state b
    cases hPick : pick b with
    | none => exact hOther state b hPick
    | some c => rw [hPicked b c hPick]
  rw [hPicks, hPicks]
  exact same_foldlM_of_perm hLike hRespects hCommute
    (hPerm.filterMap pick) hState

end Results

end GraphQL
