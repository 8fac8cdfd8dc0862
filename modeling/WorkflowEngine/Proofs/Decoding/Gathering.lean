import WorkflowEngine.Proofs.Decoding.Records

/-!
# Gathering fields

The fields of a module are gathered before its type is known: the name and the signature are decoded
where they stand, all others are taken over, and the type is found among those. Both passes are
described entry by entry, each kind of entry by what it gives.
-/

namespace WorkflowEngine

open Decoding

/-- A key as content. -/
def Decoding.Key.content : Key → Content
  | .name s => .text s
  | .index n => .integer n

namespace ModuleSpec

variable {σ : Type} [Source σ]

/-- Entries of a module that, where a name and a signature stand before or not, bring the given ones
about and give other fields. -/
inductive Gathers (id' : Option ModuleId) (signature' : Option Signature) :
    Option ModuleId → Option Signature → Entries σ → List (Content × Content) → Prop where
  /-- No more entries. -/
  | done : Gathers id' signature' id' signature' [] []
  /-- The name, which does not stand before. -/
  | id {signature : Option Signature} {part : σ} {id : ModuleId} {rest : Entries σ}
    {others : List (Content × Content)} (hid : Source.text part = .ok id)
    (h : Gathers id' signature' (some id) signature rest others) :
    Gathers id' signature' none signature ((.ok (.name "id"), part) :: rest) others
  /-- The signature, which does not stand before. -/
  | signature {id : Option ModuleId} {part : σ} {signature : Signature} {rest : Entries σ}
    {others : List (Content × Content)} (hsignature : Signature.read part = .ok signature)
    (h : Gathers id' signature' id (some signature) rest others) :
    Gathers id' signature' id none ((.ok (.name "signature"), part) :: rest) others
  /-- Any other field, which is taken over. -/
  | other {id : Option ModuleId} {signature : Option Signature} {key : Key} {part : σ} {c : Content}
    {rest : Entries σ} {others : List (Content × Content)} (hid : key ≠ .name "id")
    (hsignature : key ≠ .name "signature") (hc : Source.content part = .ok c)
    (h : Gathers id' signature' id signature rest others) :
    Gathers id' signature' id signature ((.ok key, part) :: rest) ((key.content, c) :: others)

/-- Entries that bring a module's parts about are collected as these parts. -/
theorem gather_of_gathers {id id' : Option ModuleId} {signature signature' : Option Signature}
    {entries : Entries σ} {others : List (Content × Content)}
    (h : Gathers id' signature' id signature entries others) (before : List (Content × Content)) :
    gather ⟨id, signature, before⟩ entries = .ok ⟨id', signature', others.reverse ++ before⟩ := by
  induction h generalizing before with
  | done => rfl
  | id hid h ih => exact bind_eq_ok_iff.2 ⟨_, rfl, bind_eq_ok_iff.2 ⟨_, hid, ih before⟩⟩
  | signature hsignature h ih =>
    exact bind_eq_ok_iff.2 ⟨_, rfl, bind_eq_ok_iff.2 ⟨_, hsignature, ih before⟩⟩
  | @other _ _ key part c rest others hid hsignature hc h ih =>
    rw [List.reverse_cons, List.append_assoc]
    unfold gather
    refine bind_eq_ok_iff.2 ⟨key, rfl, ?_⟩
    split
    next => exact absurd rfl hid
    next => exact absurd rfl hsignature
    next => exact bind_eq_ok_iff.2 ⟨c, hc, ih _⟩
    next => exact bind_eq_ok_iff.2 ⟨c, hc, ih _⟩

/-- Entries that are collected bring the parts about. -/
theorem exists_of_gather_eq_ok {p q : Parts} {entries : Entries σ} (h : gather p entries = .ok q) :
    ∃ others, Gathers q.id q.signature p.id p.signature entries others ∧
      q.others = others.reverse ++ p.others := by
  induction entries generalizing p with
  | nil =>
    cases h
    exact ⟨[], .done, rfl⟩
  | cons e rest ih =>
    obtain ⟨key, part⟩ := e
    unfold gather at h
    rw [bind_eq_ok_iff] at h
    obtain ⟨key, rfl, h⟩ := h
    obtain ⟨id, signature, before⟩ := p
    -- Other fields may go by a name or by a number, which ends in two cases below.
    have hother {c : Content} (hid : key ≠ .name "id") (hsignature : key ≠ .name "signature")
        (hc : Source.content part = .ok c)
        (h : gather ⟨id, signature, (key.content, c) :: before⟩ rest = .ok q) :
        ∃ others, Gathers q.id q.signature id signature ((.ok key, part) :: rest) others ∧
          q.others = others.reverse ++ before := by
      obtain ⟨others, hrest, hothers⟩ := ih h
      refine ⟨_, .other hid hsignature hc hrest, ?_⟩
      rw [hothers, List.reverse_cons, List.append_assoc]
      rfl
    split at h
    next =>
      cases id with
      | some id => cases h
      | none =>
        obtain ⟨id, hid, h⟩ := bind_eq_ok_iff.1 h
        obtain ⟨others, hrest, hothers⟩ := ih h
        exact ⟨others, .id hid hrest, hothers⟩
    next =>
      cases signature with
      | some signature => cases h
      | none =>
        obtain ⟨signature, hsignature, h⟩ := bind_eq_ok_iff.1 h
        obtain ⟨others, hrest, hothers⟩ := ih h
        exact ⟨others, .signature hsignature hrest, hothers⟩
    next hid hsignature =>
      obtain ⟨c, hc, h⟩ := bind_eq_ok_iff.1 h
      exact hother (fun h => hid (Key.name.inj h)) (fun h => hsignature (Key.name.inj h)) hc h
    next =>
      obtain ⟨c, hc, h⟩ := bind_eq_ok_iff.1 h
      exact hother nofun nofun hc h

/-- Each of the other fields is the content of an entry, under a key that does not nest. -/
theorem Gathers.exists_of_mem {id id' : Option ModuleId} {signature signature' : Option Signature}
    {entries : Entries σ} {others : List (Content × Content)}
    (h : Gathers id' signature' id signature entries others) {e : Content × Content}
    (he : e ∈ others) :
    e.1.depth = 0 ∧ ∃ b ∈ entries, Source.content b.2 = .ok e.2 := by
  induction h with
  | done => cases he
  | id _ _ ih | signature _ _ ih =>
    obtain ⟨hkey, b, hb, hc⟩ := ih he
    exact ⟨hkey, b, List.mem_cons_of_mem _ hb, hc⟩
  | @other _ _ key part c rest others _ _ hc _ ih =>
    rcases List.mem_cons.1 he with rfl | he
    · exact ⟨by cases key <;> rfl, _, List.mem_cons_self, hc⟩
    · obtain ⟨hkey, b, hb, hc⟩ := ih he
      exact ⟨hkey, b, List.mem_cons_of_mem _ hb, hc⟩

/-- A module is decoded exactly from entries that give it a name, and to its kind other fields. -/
theorem readWith_eq_ok_iff
    {kind : List (Content × Content) → Except Failure (Kind ModuleId ModuleSpec)} {s : σ}
    {t : ModuleSpec} :
    readWith kind s = .ok t ↔ ∃ entries id signature others k, Source.entries s = .ok entries ∧
      Gathers (some id) signature none none entries others ∧ kind others = .ok k ∧
      t = .mk id (signature.getD .empty) k := by
  refine Iff.trans located_eq_ok_iff ?_
  constructor
  · intro h
    obtain ⟨entries, hentries, h⟩ := bind_eq_ok_iff.1 h
    obtain ⟨⟨id, signature, taken⟩, hgather, h⟩ := bind_eq_ok_iff.1 h
    obtain ⟨others, hothers, rfl⟩ := exists_of_gather_eq_ok hgather
    cases id with
    | none => cases h
    | some id =>
      obtain ⟨k, hk, h⟩ := bind_eq_ok_iff.1 h
      rw [List.append_nil, List.reverse_reverse] at hk
      exact ⟨entries, id, signature, others, k, hentries, hothers, hk, pure_eq_ok_iff.1 h⟩
  · rintro ⟨entries, id, signature, others, k, hentries, hothers, hk, rfl⟩
    refine bind_eq_ok_iff.2 ⟨entries, hentries, ?_⟩
    refine bind_eq_ok_iff.2 ⟨_, gather_of_gathers hothers [], bind_eq_ok_iff.2 ⟨k, ?_, rfl⟩⟩
    rw [List.append_nil, List.reverse_reverse]
    exact hk

end ModuleSpec

namespace Kind

/-- Fields that, where a type stands before or not, bring a type about beside others. -/
inductive TakesTag (tag' : KindTag) :
    Option KindTag → List (Content × Content) → List (Content × Content) → Prop where
  /-- No more fields, and the type stands before. -/
  | done : TakesTag tag' (some tag') [] []
  /-- The type, which does not stand before. -/
  | type {tag : KindTag} {c : Content} {rest others : List (Content × Content)}
    (htag : readTag c = .ok tag) (h : TakesTag tag' (some tag) rest others) :
    TakesTag tag' none ((.text "type", c) :: rest) others
  /-- Any other field. -/
  | other {tag : Option KindTag} {e : Content × Content} {rest others : List (Content × Content)}
    (he : e.1 ≠ .text "type") (h : TakesTag tag' tag rest others) :
    TakesTag tag' tag (e :: rest) (e :: others)

/-- What is left of the fields was among them. -/
theorem TakesTag.mem_of_mem {tag' : KindTag} {tag : Option KindTag}
    {es others : List (Content × Content)} (h : TakesTag tag' tag es others)
    {e : Content × Content} (he : e ∈ others) : e ∈ es := by
  induction h with
  | done => cases he
  | type _ _ ih => exact List.mem_cons_of_mem _ (ih he)
  | other _ _ ih =>
    rcases List.mem_cons.1 he with rfl | he
    · exact List.mem_cons_self
    · exact List.mem_cons_of_mem _ (ih he)

/-- After the type no other type may stand. -/
theorem TakesTag.eq_of_some {tag tag' : KindTag} {es others : List (Content × Content)}
    (h : TakesTag tag' (some tag) es others) :
    tag' = tag ∧ ∀ c, (Content.text "type", c) ∉ es := by
  generalize hstate : some tag = state at h
  induction h with
  | done =>
    cases hstate
    exact ⟨rfl, fun _ => List.not_mem_nil⟩
  | type _ _ _ => cases hstate
  | @other state e rest others he h ih =>
    obtain ⟨htag, hrest⟩ := ih hstate
    refine ⟨htag, fun c hc => ?_⟩
    rcases List.mem_cons.1 hc with rfl | hc
    · exact he rfl
    · exact hrest c hc

/-- The type that is taken is that of any member of its name. -/
theorem TakesTag.readTag_of_mem {tag : KindTag} {es others : List (Content × Content)}
    (h : TakesTag tag none es others) {c : Content} (hc : (Content.text "type", c) ∈ es) :
    readTag c = .ok tag := by
  generalize hstate : none = state at h
  induction h with
  | done => cases hstate
  | type htag h _ =>
    obtain ⟨rfl, hrest⟩ := h.eq_of_some
    rcases List.mem_cons.1 hc with hc | hc
    · obtain rfl := (Prod.mk.inj hc).2
      exact htag
    · exact absurd hc (hrest c)
  | other he h ih =>
    rcases List.mem_cons.1 hc with rfl | hc
    · exact absurd rfl he
    · exact ih hc hstate

/-- Fields that bring a type about are decoded to it. -/
theorem takeTag_of_takesTag {tag' : KindTag} {tag : Option KindTag}
    {es others : List (Content × Content)} (h : TakesTag tag' tag es others)
    (before : List (Content × Content)) :
    takeTag tag before es = .ok (tag', before.reverse ++ others) := by
  induction h generalizing before with
  | done => rw [List.append_nil, takeTag]
  | type htag h ih => exact bind_eq_ok_iff.2 ⟨_, htag, ih before⟩
  | @other tag e rest others he h ih =>
    rw [takeTag, ih, List.reverse_cons, List.append_assoc]
    · rfl
    · rintro c rfl
      exact he rfl

/-- Fields that are decoded to a type bring it about. -/
theorem exists_of_takeTag_eq_ok {tag : Option KindTag} {before es : List (Content × Content)}
    {found : KindTag × List (Content × Content)} (h : takeTag tag before es = .ok found) :
    ∃ others, TakesTag found.1 tag es others ∧ found.2 = before.reverse ++ others := by
  induction es generalizing tag before with
  | nil =>
    cases tag with
    | none => cases h
    | some tag =>
      cases h
      exact ⟨[], .done, (List.append_nil _).symm⟩
  | cons e es ih =>
    obtain ⟨key, c⟩ := e
    by_cases hkey : key = .text "type"
    · subst hkey
      cases tag with
      | some tag => cases h
      | none =>
        obtain ⟨tag, htag, h⟩ := bind_eq_ok_iff.1 h
        obtain ⟨others, hes, hfound⟩ := ih h
        exact ⟨others, .type htag hes, hfound⟩
    · rw [takeTag] at h
      · obtain ⟨others, hes, hfound⟩ := ih h
        refine ⟨_, .other hkey hes, ?_⟩
        rw [hfound, List.reverse_cons, List.append_assoc]
        rfl
      · intro c hc
        exact hkey (congrArg Prod.fst hc)

/-- The type is taken exactly from fields that bring it about, and the others are left in their
order. -/
theorem takeTag_eq_ok_iff {es : List (Content × Content)}
    {found : KindTag × List (Content × Content)} :
    takeTag none [] es = .ok found ↔ TakesTag found.1 none es found.2 := by
  constructor
  · intro h
    obtain ⟨others, hes, hothers⟩ := exists_of_takeTag_eq_ok h
    rw [hothers]
    exact hes
  · intro h
    exact takeTag_of_takesTag h []

end Kind

end WorkflowEngine
