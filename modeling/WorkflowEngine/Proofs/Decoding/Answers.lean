import WorkflowEngine.Proofs.Decoding.Records

/-!
# Decoding a changed document

How decoding answers to a change of the document: a change that is to be rejected makes decoding
fail, any other change leaves the result as it is. Computations put together answer as the one does
in which the change is met. So do records and lists: where one of their parts is changed, they
answer as the decoder of this part does.
-/

namespace WorkflowEngine.Decoding

variable {ε σ ρ α β : Type}

/-- Whether a second computation answers to a change of the first: if the first has a result, then
the second has none if the change is to be rejected, and the same otherwise. -/
def Answers (rejected : Bool) (x y : Except ε α) : Prop :=
  ∀ a, x = .ok a → if rejected then ∀ b, y ≠ .ok b else y = .ok a

namespace Answers

variable {rejected : Bool} {x y : Except ε α}

theorem refl (x : Except ε α) : Answers false x x := fun _ h => h

/-- A computation that fails answers to any change. -/
theorem error (e : ε) (y : Except ε α) : Answers rejected (.error e) y := nofun

/-- The change is met in the first of two computations. -/
theorem bind (h : Answers rejected x y) (f : α → Except ε β) :
    Answers rejected (x >>= f) (y >>= f) := by
  intro b hb
  obtain ⟨a, ha, hb⟩ := bind_eq_ok_iff.1 hb
  cases rejected with
  | true =>
    intro b' hb'
    obtain ⟨a', ha', -⟩ := bind_eq_ok_iff.1 hb'
    exact h a ha a' ha'
  | false => exact bind_eq_ok_iff.2 ⟨a, h a ha, hb⟩

/-- The change is met in the second of two computations. -/
theorem bind_right {f g : α → Except ε β} (h : ∀ a, x = .ok a → Answers rejected (f a) (g a)) :
    Answers rejected (x >>= f) (x >>= g) := by
  cases x with
  | error e => exact .error e _
  | ok a => exact h a rfl

theorem map (h : Answers rejected x y) (f : α → β) : Answers rejected (f <$> x) (f <$> y) :=
  h.bind fun a => pure (f a)

variable [Source σ]

/-- Failures may be at other places. -/
theorem located {x y : Except Failure α} (h : Answers rejected x y) (s s' : σ) :
    Answers rejected (located s x) (located s' y) := by
  intro a ha
  have hy := h a (located_eq_ok_iff.1 ha)
  cases rejected with
  | true => exact fun b hb => hy b (located_eq_ok_iff.1 hb)
  | false => exact located_eq_ok_iff.2 hy

/-- A list is decoded item by item. -/
theorem mapM {f : β → Except ε α} {v w : β} (h : Answers rejected (f v) (f w))
    (before after : List β) :
    Answers rejected ((before ++ v :: after).mapM f) ((before ++ w :: after).mapM f) := by
  induction before with
  | nil =>
    rw [List.nil_append, List.nil_append, List.mapM_cons, List.mapM_cons]
    exact h.bind _
  | cons u before ih =>
    rw [List.cons_append, List.cons_append, List.mapM_cons, List.mapM_cons]
    exact bind_right fun _ _ => ih.bind _

end Answers

/-! ## Records -/

variable [Source σ] {fields : List (Field σ ρ)} {rejected : Bool}

/-- Fields by name, where one of them is changed. -/
theorem answers_readNamed {key : Key} {f : Field σ ρ} (hf : findField fields key = some f)
    {part part' : σ} (h : ∀ r, Answers rejected (f.read part r) (f.read part' r)) (strict : Bool)
    (before after : Entries σ) (seen : List String) (r : ρ) :
    Answers rejected (readNamed fields strict seen r (before ++ (.ok key, part) :: after))
      (readNamed fields strict seen r (before ++ (.ok key, part') :: after)) := by
  induction before generalizing seen r with
  | nil =>
    rw [List.nil_append, List.nil_append]
    unfold readNamed
    refine .bind_right fun key' hkey => ?_
    obtain rfl := Except.ok.inj hkey
    simp only [hf]
    split
    · exact .error _ _
    · exact (h r).bind _
  | cons e before ih =>
    obtain ⟨key', value⟩ := e
    rw [List.cons_append, List.cons_append]
    unfold readNamed
    refine .bind_right fun key' _ => ?_
    split
    · split
      · exact .error _ _
      · exact .bind_right fun r _ => ih _ r
    · split
      · exact .error _ _
      · exact .bind_right fun _ _ => ih seen r

/-- A field that is not known is passed over in a record that is not strict. -/
theorem readNamed_unknown {key : Key} (hkey : findField fields key = none) {part : σ}
    (hskip : Source.skip part = .ok ()) (before after : Entries σ) (seen : List String) (r : ρ) :
    readNamed fields false seen r (before ++ (.ok key, part) :: after) =
      readNamed fields false seen r (before ++ after) := by
  induction before generalizing seen r with
  | nil =>
    rw [List.nil_append, List.nil_append, readNamed, hskip]
    simp only [hkey, bind, Except.bind]
    rfl
  | cons e before ih =>
    obtain ⟨key', value⟩ := e
    simp only [List.cons_append, readNamed, ih]

/-- A field that is not known is a fault in a strict record. -/
theorem readNamed_unknown_ne_ok {key : Key} (hkey : findField fields key = none) (part : σ)
    (before after : Entries σ) (seen : List String) (r : ρ) (found : List String × ρ) :
    readNamed fields true seen r (before ++ (.ok key, part) :: after) ≠ .ok found := by
  intro h
  induction before generalizing seen r with
  | nil =>
    rw [List.nil_append, readNamed] at h
    simp only [hkey, bind, Except.bind] at h
    cases h
  | cons e before ih =>
    obtain ⟨key', value⟩ := e
    rw [List.cons_append, readNamed, bind_eq_ok_iff] at h
    obtain ⟨key', _, h⟩ := h
    split at h
    · split at h
      · obtain ⟨_, hfault, _⟩ := bind_eq_ok_iff.1 h
        cases hfault
      · obtain ⟨r, _, h⟩ := bind_eq_ok_iff.1 h
        exact ih _ r h
    · obtain ⟨_, hfault, _⟩ := bind_eq_ok_iff.1 h
      cases hfault

/-- Fields in their order, where one of them is changed. -/
theorem answers_readListed {before after : List σ} {f : Field σ ρ}
    (hf : fields[before.length]? = some f) {part part' : σ}
    (h : ∀ r, Answers rejected (f.read part r) (f.read part' r)) (place : Nat) (r : ρ) :
    Answers rejected (readListed place r fields (before ++ part :: after))
      (readListed place r fields (before ++ part' :: after)) := by
  induction before generalizing fields place r with
  | nil =>
    cases fields with
    | nil => cases hf
    | cons g fields =>
      obtain rfl : g = f := Option.some.inj hf
      exact (h r).bind _
  | cons value before ih =>
    cases fields with
    | nil => cases hf
    | cons g fields => exact .bind_right fun r _ => ih hf (place + 1) r

end WorkflowEngine.Decoding
