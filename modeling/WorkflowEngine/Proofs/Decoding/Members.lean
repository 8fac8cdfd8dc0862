import WorkflowEngine.Proofs.Decoding.Nesting
import WorkflowEngine.Proofs.Decoding.Views

/-!
# Members of a module

A module is decoded from an object by its members' names: the name and the signature where they
stand, the type from its member, and all others as the fields of a kind. So what is decoded depends
on each of these parts alone.
-/

namespace WorkflowEngine

open Decoding

variable {σ : Type} [Source σ]

namespace ModuleSpec

/-- Whether a member of a module is decoded where it stands. -/
def isHead (m : String × Json) : Bool := m.1 == "id" || m.1 == "signature"

/-- Whether a member of a module is its type. -/
def isTag (m : String × Json) : Bool := m.1 == "type"

/-- The name and the signature of a module are its head. -/
theorem isHead_eq_false_iff {m : String × Json} :
    isHead m = false ↔ m.1 ≠ "id" ∧ m.1 ≠ "signature" := by
  rw [isHead, Bool.or_eq_false_iff, beq_eq_false_iff_ne, beq_eq_false_iff_ne]

variable {V : View σ} {d : Nat} {ms : List (String × Json)}

/-- The name and the signature are gathered from their members, all others are taken over. -/
theorem gathers_members_iff {id id' : Option ModuleId} {signature signature' : Option Signature}
    {others : List (Content × Content)} :
    Gathers id' signature' id signature (V.members d ms) others ↔
      Gathers id' signature' id signature (V.members d (ms.filter isHead)) [] ∧
        (∀ m ∈ ms, isHead m = false → Source.content (V.part d m.2) = .ok (.ofJson m.2)) ∧
        others = Content.ofJsonMembers (ms.filter fun m => !isHead m) := by
  constructor
  · intro h
    induction ms generalizing id signature others with
    | nil =>
      cases h
      exact ⟨.done, List.forall_mem_nil _, rfl⟩
    | cons m ms ih =>
      obtain ⟨name, v⟩ := m
      cases h with
      | id hid h =>
        obtain ⟨hhead, htaken, rfl⟩ := ih h
        exact ⟨.id hid hhead, List.forall_mem_cons.2 ⟨nofun, htaken⟩, rfl⟩
      | signature hsignature h =>
        obtain ⟨hhead, htaken, rfl⟩ := ih h
        exact ⟨.signature hsignature hhead, List.forall_mem_cons.2 ⟨nofun, htaken⟩, rfl⟩
      | other hid hsignature hc h =>
        obtain ⟨hhead, htaken, rfl⟩ := ih h
        obtain rfl := V.eq_of_content hc
        have hm : isHead (name, v) = false := isHead_eq_false_iff.2
          ⟨fun h => hid (congrArg Key.name h), fun h => hsignature (congrArg Key.name h)⟩
        refine ⟨?_, List.forall_mem_cons.2 ⟨fun _ => hc, htaken⟩, ?_⟩
        · rw [List.filter_cons_of_neg (Bool.eq_false_iff.1 hm)]
          exact hhead
        · rw [List.filter_cons_of_pos (by rw [hm]; rfl)]
          rfl
  · rintro ⟨hhead, htaken, rfl⟩
    induction ms generalizing id signature with
    | nil => exact hhead
    | cons m ms ih =>
      obtain ⟨name, v⟩ := m
      obtain ⟨hv, hrest⟩ := List.forall_mem_cons.1 htaken
      -- A member of the head stands in what is filtered, any other among the fields.
      cases hm : isHead (name, v) with
      | true =>
        rw [List.filter_cons_of_pos hm] at hhead
        rw [List.filter_cons_of_neg (by rw [hm]; decide)]
        cases hhead with
        | id hid h => exact .id hid (ih h hrest)
        | signature hsignature h => exact .signature hsignature (ih h hrest)
      | false =>
        obtain ⟨hid, hsignature⟩ := isHead_eq_false_iff.1 hm
        rw [List.filter_cons_of_neg (Bool.eq_false_iff.1 hm)] at hhead
        rw [List.filter_cons_of_pos (by rw [hm]; rfl)]
        exact .other (fun h => hid (Key.name.inj h)) (fun h => hsignature (Key.name.inj h)) (hv hm)
          (ih hhead hrest)

end ModuleSpec

namespace Kind

open ModuleSpec (isTag)

variable {ms : List (String × Json)}

/-- The type is taken from its member, and the others remain. -/
theorem takesTag_members_iff {tag : Option KindTag} {tag' : KindTag}
    {others : List (Content × Content)} :
    TakesTag tag' tag (Content.ofJsonMembers ms) others ↔
      TakesTag tag' tag (Content.ofJsonMembers (ms.filter isTag)) [] ∧
        others = Content.ofJsonMembers (ms.filter fun m => !isTag m) := by
  constructor
  · intro h
    induction ms generalizing tag others with
    | nil =>
      cases h
      exact ⟨.done, rfl⟩
    | cons m ms ih =>
      obtain ⟨name, v⟩ := m
      cases h with
      | type htag h =>
        obtain ⟨hrest, rfl⟩ := ih h
        exact ⟨.type htag hrest, rfl⟩
      | other he h =>
        obtain ⟨hrest, rfl⟩ := ih h
        have hm : isTag (name, v) = false :=
          beq_eq_false_iff_ne.2 fun h => he (congrArg Content.text h)
        rw [List.filter_cons_of_neg (Bool.eq_false_iff.1 hm),
          List.filter_cons_of_pos (by rw [hm]; rfl)]
        exact ⟨hrest, rfl⟩
  · rintro ⟨h, rfl⟩
    induction ms generalizing tag with
    | nil => exact h
    | cons m ms ih =>
      obtain ⟨name, v⟩ := m
      cases hm : isTag (name, v) with
      | true =>
        obtain rfl : name = "type" := beq_iff_eq.1 hm
        rw [List.filter_cons_of_pos hm] at h
        rw [List.filter_cons_of_neg (by rw [hm]; decide)]
        cases h with
        | type htag h => exact .type htag (ih h)
      | false =>
        rw [List.filter_cons_of_neg (Bool.eq_false_iff.1 hm)] at h
        rw [List.filter_cons_of_pos (by rw [hm]; rfl)]
        exact .other (fun h => beq_eq_false_iff_ne.1 hm (Content.text.inj h)) (ih h)

end Kind

namespace ModuleSpec

/-- Whether a member of a module is a field of its kind. -/
def isField (m : String × Json) : Bool := !isTag m && !isHead m

variable {V : View σ} {d : Nat} {ms : List (String × Json)}

/-- What the members of an object are decoded into as a module. -/
structure Decodes (V : View σ) (d : Nat) (ms : List (String × Json)) (id : ModuleId)
    (signature : Option Signature) (tag : KindTag) (k : Kind ModuleId ModuleSpec) : Prop where
  /-- The object can be opened. -/
  opened : V.gate d = .ok ()
  /-- The name and the signature are decoded from their members. -/
  head : Gathers (some id) signature none none (V.members (d - 1) (ms.filter isHead)) []
  /-- All other members can be taken over. -/
  taken : ∀ m ∈ ms, isHead m = false → Source.content (V.part (d - 1) m.2) = .ok (.ofJson m.2)
  /-- The type is decoded from its member. -/
  type : Kind.TakesTag tag none (Content.ofJsonMembers (ms.filter isTag)) []
  /-- The remaining members are decoded as the fields of this type. -/
  fields : Kind.readFields read tag (.map (Content.ofJsonMembers (ms.filter isField))) = .ok k

/-- A module is decoded from an object exactly through its members. -/
theorem read_object_eq_ok_iff {t : ModuleSpec} :
    read (V.part d (.object ms)) = .ok t ↔
      ∃ id signature tag k, Decodes V d ms id signature tag k ∧
        t = .mk id (signature.getD .empty) k := by
  have htags : (ms.filter fun m => !isHead m).filter isTag = ms.filter isTag := by
    rw [List.filter_filter]
    refine List.filter_congr fun m _ => ?_
    cases hm : isTag m with
    | false => rfl
    | true =>
      have hname : m.1 = "type" := beq_iff_eq.1 hm
      rw [isHead_eq_false_iff.2 (by rw [hname]; decide)]
      rfl
  have hfields : ((ms.filter fun m => !isHead m).filter fun m => !isTag m) = ms.filter isField :=
    List.filter_filter ..
  refine readWith_eq_ok_iff.trans ?_
  constructor
  · rintro ⟨entries, id, signature, others, k, hentries, hgathers, hk, rfl⟩
    rw [V.entries] at hentries
    obtain ⟨⟨⟩, hopened, hentries⟩ := bind_eq_ok_iff.1 hentries
    obtain rfl := Except.ok.inj hentries
    obtain ⟨hhead, htaken, rfl⟩ := gathers_members_iff.1 hgathers
    rw [readKind_eq] at hk
    obtain ⟨⟨tag, rest⟩, htag, hk⟩ := bind_eq_ok_iff.1 hk
    obtain ⟨htag, rfl⟩ := Kind.takesTag_members_iff.1 (Kind.takeTag_eq_ok_iff.1 htag)
    rw [htags] at htag
    rw [hfields] at hk
    exact ⟨id, signature, tag, k, ⟨hopened, hhead, htaken, htag, hk⟩, rfl⟩
  · rintro ⟨id, signature, tag, k, h, rfl⟩
    have hgathers := gathers_members_iff.2 ⟨h.head, h.taken, rfl⟩
    have htag := Kind.takesTag_members_iff.2 ⟨htags.symm ▸ h.type, rfl⟩
    refine ⟨_, id, signature, _, k, ?_, hgathers, ?_, rfl⟩
    · rw [V.entries, h.opened]
      rfl
    · rw [readKind_eq]
      refine bind_eq_ok_iff.2 ⟨(tag, _), Kind.takeTag_eq_ok_iff.2 htag, ?_⟩
      rw [hfields]
      exact h.fields

/-- The type that is decoded is that of any member of its name. -/
theorem Decodes.readTag_of_mem {id : ModuleId} {signature : Option Signature} {tag : KindTag}
    {k : Kind ModuleId ModuleSpec} (h : Decodes V d ms id signature tag k) {t : Json}
    (ht : ("type", t) ∈ ms) : Kind.readTag (.ofJson t) = .ok tag := by
  refine h.type.readTag_of_mem ?_
  rw [Content.ofJsonMembers_eq_map]
  exact List.mem_map_of_mem (List.mem_filter.2 ⟨ht, rfl⟩)

/-- Where only the signature is changed, what is collected answers as the signature does. -/
theorem answers_gather_signature {rejected : Bool} {part part' : σ}
    (h : Answers rejected (Signature.read part) (Signature.read part'))
    (before after : Entries σ) (p : Parts) :
    Answers rejected (gather p (before ++ (.ok (.name "signature"), part) :: after))
      (gather p (before ++ (.ok (.name "signature"), part') :: after)) := by
  induction before generalizing p with
  | nil =>
    rw [List.nil_append, List.nil_append]
    unfold gather
    refine .bind_right fun key hkey => ?_
    obtain rfl := Except.ok.inj hkey
    show Answers rejected (if p.signature.isSome then _ else _)
      (if p.signature.isSome then _ else _)
    split
    · exact .error _ _
    · exact h.bind _
  | cons e before ih =>
    obtain ⟨key, part⟩ := e
    rw [List.cons_append, List.cons_append]
    unfold gather
    refine .bind_right fun key _ => ?_
    split
    · split
      · exact .error _ _
      · exact .bind_right fun _ _ => ih _
    · split
      · exact .error _ _
      · exact .bind_right fun _ _ => ih _
    · exact .bind_right fun _ _ => ih _
    · exact .bind_right fun _ _ => ih _

/-- Where only the signature is changed, a module answers as the signature does. -/
theorem answers_read_signature {rejected : Bool} {v w : Json}
    (h : Answers rejected (Signature.read (V.part (d - 1) v)) (Signature.read (V.part (d - 1) w)))
    (before after : List (String × Json)) :
    Answers rejected (read (V.part d (.object (before ++ ("signature", v) :: after))))
      (read (V.part d (.object (before ++ ("signature", w) :: after)))) := by
  refine .located ?_ _ _
  rw [V.entries, V.entries]
  cases V.gate d with
  | error f => exact .error f _
  | ok _ =>
    have hentries (u : Json) : ((before ++ ("signature", u) :: after).map fun m =>
        ((.ok (.name m.1), V.part (d - 1) m.2) : Except Failure Key × σ)) =
          V.members (d - 1) before ++
            (.ok (.name "signature"), V.part (d - 1) u) :: V.members (d - 1) after :=
      V.members_append_cons _ _ _ _
    rw [hentries, hentries]
    exact (answers_gather_signature h _ _ _).bind _

/-- Members of one name have no part in what is filtered from the others. -/
theorem filter_eq_of_name {p : String × Json → Bool} {name : String}
    (hp : ∀ v, p (name, v) = false) {old : List (String × Json)} (hold : ∀ m ∈ old, m.1 = name)
    (x : Json) (before after : List (String × Json)) :
    (before ++ (name, x) :: after).filter p = (before ++ old ++ after).filter p := by
  have hnone : old.filter p = [] := by
    refine List.filter_eq_nil_iff.2 fun m hm => ?_
    obtain rfl := hold m hm
    exact Bool.eq_false_iff.1 (hp m.2)
  rw [List.filter_append, List.filter_cons_of_neg (Bool.eq_false_iff.1 (hp x)),
    List.filter_append, List.filter_append, hnone, List.append_nil]

/-- Where only other members are changed, a module answers as the fields of its type do. -/
theorem answers_read_fields {rejected : Bool} {name : String}
    (hname : name ≠ "id" ∧ name ≠ "signature" ∧ name ≠ "type")
    {before old after : List (String × Json)} (hold : ∀ m ∈ old, m.1 = name) {x : Json}
    (hx : rejected = false → x.depth ≤ d - 1) {t : Json} {tag : KindTag}
    (ht : ("type", t) ∈ before ++ old ++ after) (htag : Kind.readTag (.ofJson t) = .ok tag)
    (h : Answers rejected
      (Kind.readFields read tag
        (.map (Content.ofJsonMembers ((before ++ old ++ after).filter isField))))
      (Kind.readFields read tag
        (.map (Content.ofJsonMembers ((before ++ (name, x) :: after).filter isField))))) :
    Answers rejected (read (V.part d (.object (before ++ old ++ after))))
      (read (V.part d (.object (before ++ (name, x) :: after)))) := by
  have hhead (v : Json) : isHead (name, v) = false := isHead_eq_false_iff.2 ⟨hname.1, hname.2.1⟩
  have hheads := filter_eq_of_name hhead hold x before after
  have htags := filter_eq_of_name (p := isTag) (fun _ => beq_false_of_ne hname.2.2) hold x before
    after
  intro s hs
  obtain ⟨id, signature, tag', k, hd, rfl⟩ := read_object_eq_ok_iff.1 hs
  obtain rfl : tag' = tag := Except.ok.inj ((hd.readTag_of_mem ht).symm.trans htag)
  cases rejected with
  | true =>
    intro s' hs'
    obtain ⟨id', signature', tag'', k', hd', -⟩ := read_object_eq_ok_iff.1 hs'
    have ht' : ("type", t) ∈ (before ++ (name, x) :: after).filter isTag := by
      rw [htags]
      exact List.mem_filter.2 ⟨ht, rfl⟩
    have ht' := List.mem_of_mem_filter ht'
    obtain rfl : tag'' = tag' := Except.ok.inj ((hd'.readTag_of_mem ht').symm.trans htag)
    exact h k hd.fields k' hd'.fields
  | false =>
    refine read_object_eq_ok_iff.2 ⟨id, signature, tag', k, ⟨hd.opened, ?_, ?_, ?_, ?_⟩, rfl⟩
    · rw [hheads]
      exact hd.head
    · intro m hm hmhead
      rcases List.mem_append.1 hm with hm | hm
      · exact hd.taken m (List.mem_append_left _ (List.mem_append_left _ hm)) hmhead
      · rcases List.mem_cons.1 hm with rfl | hm
        · exact V.content (hx rfl)
        · exact hd.taken m (List.mem_append_right _ hm) hmhead
    · rw [htags]
      exact hd.type
    · exact h k hd.fields

end ModuleSpec

end WorkflowEngine
