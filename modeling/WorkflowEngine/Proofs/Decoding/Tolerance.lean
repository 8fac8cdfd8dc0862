import WorkflowEngine.Proofs.Decoding.Insertions
import WorkflowEngine.Proofs.Decoding.Members

/-!
# Members that are no fields

Steps and cases reject members that are no fields; modules, signatures and declarations pass them
over. This holds of every object in a specification, at any depth: where such a member is inserted,
decoding fails or gives what it gave before, as the form of the object says.
-/

namespace WorkflowEngine

open Decoding

variable {σ ρ : Type} [Source σ]

/-! ## Fields -/

/-- Whether decoding answers to a change of a value that is read as a slot says. -/
def Slot.Answers (V : View σ) (d : Nat) (rejected : Bool) : Slot → Json → Json → Prop
  | .data, _, _ => False
  | .one form, v, w => v ≠ .null ∧ w ≠ .null ∧
    Decoding.Answers rejected (form.read (V.part d v)) (form.read (V.part d w))
  | .many form, v, w =>
    Decoding.Answers rejected (readList form.read (V.part d v)) (readList form.read (V.part d w))

/-- Whether a field is decoded as a slot says: it answers to a change of its value as the slot
does. -/
def Decoding.Field.Fits (V : View σ) (f : Field σ ρ) (slot : Slot) : Prop :=
  ∀ d rejected v w, slot.Answers V d rejected v w →
    ∀ r, Answers rejected (f.read (V.part d v) r) (f.read (V.part d w) r)

/-- Whether fields are those of given names, decoded as the slots say. -/
def Decoding.Fit (V : View σ) : List (Field σ ρ) → List (String × Slot) → Prop :=
  List.Forall₂ fun f s => f.name = s.1 ∧ f.Fits V s.2

namespace Decoding.Fit

variable {V : View σ} {fields : List (Field σ ρ)} {slots : List (String × Slot)}

/-- A field is found by its name where the slot is. -/
theorem rel_findField (h : Fit V fields slots) (name : String) :
    Option.Rel (Field.Fits V) (findField fields (.name name)) (slots.lookup name) := by
  induction h with
  | nil => exact .none
  | @cons f s fields slots hfs h ih =>
    obtain ⟨key, slot⟩ := s
    simp only [findField, List.find?_cons, List.lookup_cons, hfs.1, BEq.comm (a := name)] at ih ⊢
    cases key == name with
    | true => exact .some hfs.2
    | false => exact ih

/-- A name without a slot is the name of no field. -/
theorem findField_of_lookup_eq_none (h : Fit V fields slots) {name : String}
    (hname : slots.lookup name = none) : findField fields (.name name) = none := by
  have hrel := h.rel_findField name
  rw [hname] at hrel
  cases hf : findField fields (.name name) with
  | none => rfl
  | some f =>
    rw [hf] at hrel
    cases hrel

/-- A name with a slot is that of a field that fits the slot. -/
theorem exists_of_lookup_eq_some (h : Fit V fields slots) {name : String} {slot : Slot}
    (hname : slots.lookup name = some slot) :
    ∃ f, findField fields (.name name) = some f ∧ f.Fits V slot := by
  have hrel := h.rel_findField name
  rw [hname] at hrel
  cases hf : findField fields (.name name) with
  | none =>
    rw [hf] at hrel
    cases hrel
  | some f =>
    rw [hf] at hrel
    cases hrel with
    | some hfits => exact ⟨f, rfl, hfits⟩

theorem exists_of_getElem? (h : Fit V fields slots) {i : Nat} {s : String × Slot}
    (hi : slots[i]? = some s) : ∃ f, fields[i]? = some f ∧ f.Fits V s.2 := by
  induction h generalizing i with
  | nil => cases hi
  | @cons f s' fields slots hfs h ih =>
    cases i with
    | zero =>
      obtain rfl := Option.some.inj hi
      exact ⟨f, rfl, hfs.2⟩
    | succ i => exact ih hi

end Decoding.Fit

/-- Any field fits a slot of data: that answers to no change. -/
theorem Decoding.Field.fits_data (V : View σ) (f : Field σ ρ) : f.Fits V .data :=
  fun _ _ _ _ h => h.elim

/-- The objects of a form whose fields are fixed are decoded as records of these fields. -/
theorem Form.exists_fields {form : Form} (hform : form ≠ .spec) (V : View σ) :
    ∃ (fields : List (Field σ form.Result)) (start : form.Result), Fit V fields form.slots ∧
      ∀ s, form.read s = readRecord fields form.strict start s := by
  cases form with
  | spec => exact absurd rfl hform
  | signature =>
    refine ⟨Signature.fields, .empty, ?_, fun s => rfl⟩
    exact .cons ⟨rfl, fun _ _ _ _ h _ => h.bind _⟩
      (.cons ⟨rfl, fun _ _ _ _ h _ => h.bind _⟩ (.cons ⟨rfl, Field.fits_data V _⟩ .nil))
  | declaration =>
    refine ⟨ValueSpec.fields, _, ?_, fun s => rfl⟩
    exact .cons ⟨rfl, Field.fits_data V _⟩
      (.cons ⟨rfl, Field.fits_data V _⟩ (.cons ⟨rfl, Field.fits_data V _⟩ .nil))
  | step =>
    refine ⟨_, _, ?_, fun s => rfl⟩
    exact .cons ⟨rfl, fun _ _ _ _ h _ => h.2.2.bind _⟩ (.cons ⟨rfl, Field.fits_data V _⟩ .nil)
  | case =>
    refine ⟨_, _, ?_, fun s => rfl⟩
    exact .cons ⟨rfl, Field.fits_data V _⟩ (.cons ⟨rfl, fun _ _ _ _ h _ => h.2.2.bind _⟩ .nil)

/-- The fields of a kind are decoded as a record of these fields. -/
theorem KindTag.exists_fields (tag : KindTag) :
    ∃ (ρ : Type) (fields : List (Field Content ρ)) (start : ρ)
      (make : ρ → Kind ModuleId ModuleSpec), Fit .ofContent fields tag.slots ∧
      ∀ ms, Kind.readFields ModuleSpec.read tag (.map (Content.ofJsonMembers ms)) =
        make <$> readRecord fields false start (View.ofContent.part 0 (.object ms)) := by
  cases tag with
  | sequential =>
    refine ⟨List (Step ModuleSpec), [⟨"steps", false, fun v _ => readList Step.read v⟩], [],
      .sequential, ?_, fun ms => rfl⟩
    exact .cons ⟨rfl, fun _ _ _ _ h _ => h⟩ .nil
  | parallel =>
    refine ⟨List ModuleSpec, [⟨"branches", false, fun v _ => readList ModuleSpec.read v⟩], [],
      .parallel, ?_, fun ms => rfl⟩
    exact .cons ⟨rfl, fun _ _ _ _ h _ => h⟩ .nil
  | switch =>
    refine ⟨SwitchParts, Kind.switchFields ModuleSpec.read, ⟨"", [], none⟩,
      fun p => .switch p.condition p.cases p.fallback, ?_, fun ms => rfl⟩
    refine .cons ⟨rfl, Field.fits_data _ _⟩
      (.cons ⟨rfl, fun _ _ _ _ h _ => h.bind _⟩ (.cons ⟨rfl, ?_⟩ .nil))
    -- The fallback is optional: it is there wherever something other than nothing is written.
    rintro d rejected v w ⟨hv, hw, h⟩ r
    have hpresent {u : Json} (hu : u ≠ .null) :
        (Source.optional (Content.ofJson u)).mapM ModuleSpec.read =
          some <$> ModuleSpec.read (Content.ofJson u) := by
      rw [Presentation.ofContent.optional rfl hu, Option.mapM_some]
    have hfallback : Answers rejected
        ((Source.optional (Content.ofJson v)).mapM ModuleSpec.read)
        ((Source.optional (Content.ofJson w)).mapM ModuleSpec.read) := by
      rw [hpresent hv, hpresent hw]
      exact h.map some
    exact hfallback.bind _
  | http =>
    refine ⟨Unit, [], (), fun _ => .http, .nil, fun ms => ?_⟩
    have hnamed : readNamed [] false [] () (View.ofContent.members 0 ms) = .ok ([], ()) := by
      induction ms with
      | nil => rfl
      | cons m ms ih => exact ih
    rw [View.readRecord_object, readEntries, hnamed]
    rfl
  | subWorkflow | llm | tool | jsonExtract =>
    exact ⟨String, [⟨_, true, fun v _ => Source.text v⟩], "", _,
      .cons ⟨rfl, Field.fits_data _ _⟩ .nil, fun ms => rfl⟩

/-! ## Objects -/

namespace ModuleSpec

variable {V : View σ} {d : Nat} {before old after : List (String × Json)} {name : String}

/-- Members of other names are the fields of the kind. -/
theorem lookup_slots {slots : List (String × Slot)}
    (hname : name ≠ "id" ∧ name ≠ "signature" ∧ name ≠ "type") :
    (Form.spec.slots ++ slots).lookup name = slots.lookup name := by
  obtain ⟨hid, hsignature, htype⟩ := hname
  simp only [Form.slots, List.cons_append, List.nil_append, List.lookup_cons,
    beq_false_of_ne hid, beq_false_of_ne hsignature, beq_false_of_ne htype]

/-- A module's own fields are data but for the signature. -/
theorem lookup_slots_eq_some {slots : List (String × Slot)} {slot : Slot}
    (h : (Form.spec.slots ++ slots).lookup name = some slot) :
    slot = .data ∨ (name = "signature" ∧ slot = .one .signature) ∨
      (name ≠ "id" ∧ name ≠ "signature" ∧ name ≠ "type") ∧ slots.lookup name = some slot := by
  by_cases hid : name = "id"
  · subst hid
    exact .inl (Option.some.inj h).symm
  by_cases hsignature : name = "signature"
  · subst hsignature
    exact .inr (.inl ⟨rfl, (Option.some.inj h).symm⟩)
  by_cases htype : name = "type"
  · subst htype
    exact .inl (Option.some.inj h).symm
  have hname : name ≠ "id" ∧ name ≠ "signature" ∧ name ≠ "type" := ⟨hid, hsignature, htype⟩
  exact .inr (.inr ⟨hname, (lookup_slots hname).symm.trans h⟩)

/-- A member that is no field has none of the names of a module's own. -/
theorem ne_of_lookup_slots_eq_none {slots : List (String × Slot)}
    (h : (Form.spec.slots ++ slots).lookup name = none) :
    name ≠ "id" ∧ name ≠ "signature" ∧ name ≠ "type" := by
  refine ⟨?_, ?_, ?_⟩ <;>
    · rintro rfl
      cases h

/-- A member of another name than the three of the head is a field. -/
theorem isField_of_ne (hname : name ≠ "id" ∧ name ≠ "signature" ∧ name ≠ "type") (v : Json) :
    isField (name, v) = true := by
  have hhead : isHead (name, v) = false := isHead_eq_false_iff.2 ⟨hname.1, hname.2.1⟩
  have htag : isTag (name, v) = false := beq_false_of_ne hname.2.2
  rw [isField, hhead, htag]
  rfl

/-- A module passes over a member that is no field of its kind. -/
theorem answers_read_unknown {slots : List (String × Slot)}
    (hslots : Form.spec.HasSlots (before ++ old ++ after) slots) (hname : slots.lookup name = none)
    (hold : ∀ m ∈ old, m.1 = name) {x : Json} (hx : x.depth ≤ d - 1) :
    Answers false (read (V.part d (.object (before ++ old ++ after))))
      (read (V.part d (.object (before ++ (name, x) :: after)))) := by
  cases hslots with
  | fixed hform => exact absurd rfl hform
  | @spec _ t tag ht htag =>
    have hnames := ne_of_lookup_slots_eq_none hname
    rw [lookup_slots hnames] at hname
    obtain ⟨ρ, fields, start, make, hfit, hread⟩ := tag.exists_fields
    refine answers_read_fields hnames hold (fun _ => hx) ht htag ?_
    rw [List.filter_append, List.filter_append, List.filter_append,
      List.filter_cons_of_pos (isField_of_ne hnames x), hread, hread]
    exact .map (View.ofContent.answers_readRecord_unknown (hfit.findField_of_lookup_eq_none hname)
      (fun m hm => hold m (List.mem_of_mem_filter hm)) x false start _ _) make

/-- A module answers as the field of its kind in which it is changed. -/
theorem answers_read_field {rejected : Bool} {t v w : Json} {tag : KindTag} {slot : Slot}
    (hname : name ≠ "id" ∧ name ≠ "signature" ∧ name ≠ "type")
    (ht : ("type", t) ∈ before ++ (name, v) :: after) (htag : Kind.readTag (.ofJson t) = .ok tag)
    (hslot : tag.slots.lookup name = some slot) (hw : rejected = false → w.depth ≤ d - 1)
    {n : Nat} (h : slot.Answers .ofContent n rejected v w) :
    Answers rejected (read (V.part d (.object (before ++ (name, v) :: after))))
      (read (V.part d (.object (before ++ (name, w) :: after)))) := by
  obtain ⟨ρ, fields, start, make, hfit, hread⟩ := tag.exists_fields
  obtain ⟨f, hf, hfits⟩ := hfit.exists_of_lookup_eq_some hslot
  rw [List.append_cons before (name, v) after] at ht ⊢
  refine answers_read_fields hname (List.forall_mem_singleton.2 rfl) hw ht htag ?_
  rw [← List.append_cons, List.filter_append, List.filter_append,
    List.filter_cons_of_pos (isField_of_ne hname v),
    List.filter_cons_of_pos (isField_of_ne hname w), hread, hread]
  have hfields := View.ofContent.answers_readRecord_member (d := n + 1) hf
    (hfits n rejected v w h) false start (before.filter isField) (after.filter isField)
  exact hfields.map make

end ModuleSpec

/-! ## Insertions -/

theorem Json.depth_le_of_object_le {before after : List (String × Json)} {name : String} {v : Json}
    {n : Nat} (h : (object (before ++ (name, v) :: after)).depth ≤ n) : v.depth ≤ n - 1 :=
  Nat.le_sub_one_of_lt (Nat.lt_of_lt_of_le (depth_lt_of_mem_members (m := (name, v))
    (List.mem_append_right _ List.mem_cons_self)) h)

theorem Json.depth_le_of_array_le {before after : List Json} {v : Json} {n : Nat}
    (h : (array (before ++ v :: after)).depth ≤ n) : v.depth ≤ n - 1 :=
  Nat.le_sub_one_of_lt (Nat.lt_of_lt_of_le (depth_lt_of_mem_items
    (List.mem_append_right _ List.mem_cons_self)) h)

/-- Decoding answers to an insertion at any depth as the form of the object says. -/
theorem Inserts.answers {target : Form} {slot : Slot} {v w : Json} (h : Inserts target slot v w) :
    ∀ {σ : Type} [Source σ] (V : View σ) (d : Nat), (target.strict = false → w.depth ≤ d) →
      slot.Answers V d target.strict v w := by
  induction h with
  | @here before old after slots name x hslots hname hold =>
    intro σ _ V d hw
    refine ⟨nofun, nofun, ?_⟩
    by_cases htarget : target = .spec
    · subst htarget
      exact ModuleSpec.answers_read_unknown hslots hname hold (Json.depth_le_of_object_le (hw rfl))
    · obtain ⟨fields, start, hfit, hread⟩ := Form.exists_fields htarget V
      cases hslots with
      | spec => exact absurd rfl htarget
      | fixed =>
        rw [hread, hread]
        exact V.answers_readRecord_unknown (hfit.findField_of_lookup_eq_none hname) hold x _ _ _ _
  | @member form before after slots name slot v w hslots hslot h ih =>
    intro σ _ V d hw
    refine ⟨nofun, nofun, ?_⟩
    have hlevel (hstrict : target.strict = false) := Json.depth_le_of_object_le (hw hstrict)
    cases hslots with
    | spec ht htag =>
      rcases ModuleSpec.lookup_slots_eq_some hslot with rfl | ⟨rfl, rfl⟩ | ⟨hname, hslot⟩
      · cases h
      · exact ModuleSpec.answers_read_signature (ih V (d - 1) hlevel).2.2 before after
      -- The fields of a kind are content that was taken over, where levels do not matter.
      · exact ModuleSpec.answers_read_field hname ht htag hslot hlevel
          (ih View.ofContent w.depth fun _ => Nat.le_refl _)
    | fixed hform =>
      obtain ⟨fields, start, hfit, hread⟩ := Form.exists_fields hform V
      obtain ⟨f, hf, hfits⟩ := hfit.exists_of_lookup_eq_some hslot
      rw [hread, hread]
      exact V.answers_readRecord_member hf (hfits _ _ v w (ih V (d - 1) hlevel)) _ _ before after
  | @place form before after name slot v w hform hslot h ih =>
    intro σ _ V d hw
    refine ⟨nofun, nofun, ?_⟩
    have hlevel (hstrict : target.strict = false) := Json.depth_le_of_array_le (hw hstrict)
    obtain ⟨fields, start, hfit, hread⟩ := Form.exists_fields hform V
    obtain ⟨f, hf, hfits⟩ := hfit.exists_of_getElem? hslot
    rw [hread, hread]
    exact V.answers_readRecord_place hf (hfits _ _ v w (ih V (d - 1) hlevel)) _ _
  | @item form before after v w h ih =>
    intro σ _ V d hw
    have hlevel (hstrict : target.strict = false) := Json.depth_le_of_array_le (hw hstrict)
    exact V.answers_readList_item (ih V (d - 1) hlevel).2.2 before after

/-- A member that is no field makes decoding fail where it is inserted into a step or a case of a
specification, and where it is inserted into a module, a signature or a declaration, it leaves the
result as it is. Only in a text it may not nest deeper than the text allows. -/
theorem ModuleSpec.read_of_inserts {target : Form} {v w : Json}
    (h : Inserts target (.one .spec) v w) (s : ModuleSpec) :
    (read (Content.ofJson v) = .ok s →
      if target.strict then ∀ t, read (Content.ofJson w) ≠ .ok t
      else read (Content.ofJson w) = .ok s) ∧
    ∀ d, read (⟨d, .ofJson v⟩ : JsonPart) = .ok s →
      if target.strict then ∀ t, read (⟨d, .ofJson w⟩ : JsonPart) ≠ .ok t
      else w.depth ≤ d → read (⟨d, .ofJson w⟩ : JsonPart) = .ok s := by
  constructor
  · intro hs
    exact (h.answers View.ofContent w.depth fun _ => Nat.le_refl _).2.2 s hs
  · intro d hs
    have hanswers (hw : target.strict = false → w.depth ≤ d) :=
      (h.answers View.ofSyntax d hw).2.2 s hs
    cases hstrict : target.strict with
    | true =>
      rw [hstrict] at hanswers
      exact hanswers nofun
    | false =>
      rw [hstrict] at hanswers
      exact fun hw => hanswers fun _ => hw

/-- A sequence of one step that fetches, and further members of the step and of its module. -/
def Json.fetching (inStep inModule : List (String × Json)) : Json :=
  .object [("id", .string "main"), ("type", .string "sequential"), ("steps", .array [.object
    (("module", .object (("id", .string "fetch") :: ("type", .string "http") :: inModule)) ::
      inStep)])]

/-- A misspelled mapping of the step is rejected, and a comment in its module is passed over. -/
theorem ModuleSpec.read_fetching :
    Inserts .step (.one .spec) (.fetching [] []) (.fetching [("maping", .object [])] []) ∧
    Inserts .spec (.one .spec) (.fetching [] []) (.fetching [] [("comment", .null)]) ∧
    ∃ s, read (Content.ofJson (.fetching [] [])) = .ok s ∧
      (∀ t, read (Content.ofJson (.fetching [("maping", .object [])] [])) ≠ .ok t) ∧
      read (Content.ofJson (.fetching [] [("comment", .null)])) = .ok s ∧
      read (⟨5, .ofJson (.fetching [] [("comment", .null)])⟩ : JsonPart) = .ok s := by
  have hsteps {target : Form} {v w : Json} (h : Inserts target (.one .step) v w) :
      Inserts target (.one .spec)
        (.object [("id", .string "main"), ("type", .string "sequential"), ("steps", .array [v])])
        (.object [("id", .string "main"), ("type", .string "sequential"), ("steps", .array [w])]) :=
    @Inserts.member target .spec [("id", .string "main"), ("type", .string "sequential")] [] _
      "steps" (.many .step) (.array [v]) (.array [w])
      (.spec (.tail _ (.head _)) rfl) rfl (@Inserts.item target .step [] [] v w h)
  have hslots : ∀ ms, Form.step.HasSlots ms Form.step.slots := @Form.HasSlots.fixed .step nofun
  have hstep : Inserts .step (.one .spec) (.fetching [] [])
      (.fetching [("maping", .object [])] []) :=
    hsteps (@Inserts.here .step [("module", _)] [] [] _ "maping" (.object []) (hslots _) rfl
      nofun)
  have hmodule : Inserts .spec (.one .spec) (.fetching [] []) (.fetching [] [("comment", .null)]) :=
    hsteps (@Inserts.member .spec .step [] [] _ "module" (.one .spec) _ _ (hslots _) rfl
      (@Inserts.here .spec [("id", .string "fetch"), ("type", .string "http")] [] [] _ "comment"
        .null (.spec (.tail _ (.head _)) rfl) rfl nofun))
  let s : ModuleSpec :=
    .mk "main" .empty (.sequential [⟨.mk "fetch" .empty .http, .empty⟩])
  have hcontent : read (Content.ofJson (.fetching [] [])) = .ok s := by rfl
  have htext : read (⟨5, .ofJson (.fetching [] [])⟩ : JsonPart) = .ok s := by rfl
  exact ⟨hstep, hmodule, s, hcontent, (read_of_inserts hstep s).1 hcontent,
    (read_of_inserts hmodule s).1 hcontent, (read_of_inserts hmodule s).2 5 htext (by decide)⟩

end WorkflowEngine
