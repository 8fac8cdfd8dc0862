import WorkflowEngine.Proofs.Decoding.Contents
import WorkflowEngine.Proofs.Decoding.Gathering

/-!
# Failures of reading specifications

Every decoder of specifications fails accurately on every part of a document that stands for what it
decodes. A module is decoded in passes, of which each takes some fields out of what the next one
sees; what is left still tells which other fields the module does not have.
-/

namespace WorkflowEngine

open Decoding

variable {d : Facts} {σ : Type} [Source σ] [Surveyed σ] [AccurateSource σ] {role : Role}

/-! ## Values and signatures -/

theorem ValueSpec.reads : Reads d .declaration (ValueSpec.read (σ := σ)) := by
  have hwords : ∀ n ∈ ValueType.words.flatMap Word.names, Silent n := by decide
  refine reads_readRecord ⟨?_, ?_⟩ _ _
  · exact (by decide : ∀ l ∈ [("name", true), ("type", false), ("optional", false)],
      Silent l.1 ∧ (l.2 = true → l.1 ∈ Role.declaration.required))
  · exact List.forall_mem_cons.2 ⟨fun _ => reads_text.assign _, List.forall_mem_cons.2
      ⟨fun _ => (reads_readWord hwords).assign _, List.forall_mem_singleton.2
        fun _ => reads_boolean.assign _⟩⟩

theorem Payload.reads : Reads d role (Payload.read (σ := σ)) :=
  fun _ hs => .map (AccurateSource.json hs.seen)

theorem Signature.reads : Reads d .signature (Signature.read (σ := σ)) := by
  have hspecs : Reads d (.list .declaration) (readList (ValueSpec.read (σ := σ))) :=
    reads_readList fun _ => ValueSpec.reads
  have htexts : Reads d .free (readList (Source.text (σ := σ))) :=
    reads_readList fun _ => reads_text
  refine reads_readRecord ⟨?_, ?_⟩ _ _
  · exact (by decide : ∀ l ∈ [("input", false), ("output", false), ("dependencies", false)],
      Silent l.1 ∧ (l.2 = true → l.1 ∈ Role.signature.required))
  · exact List.forall_mem_cons.2 ⟨fun _ => hspecs.assign _, List.forall_mem_cons.2
      ⟨fun _ => hspecs.assign _, List.forall_mem_singleton.2 fun _ => htexts.assign _⟩⟩

/-! ## Kinds -/

theorem Step.reads_readWith {child : σ → Except Failure ModuleSpec} (h : Reads d .spec child) :
    Reads d .step (Step.readWith child) := by
  refine reads_readRecord ⟨?_, ?_⟩ _ _
  · exact (by decide : ∀ l ∈ [("module", true), ("mapping", false)],
      Silent l.1 ∧ (l.2 = true → l.1 ∈ Role.step.required))
  · exact List.forall_mem_cons.2 ⟨fun _ => h.assign _,
      List.forall_mem_singleton.2 fun _ => reads_readTextMap.assign _⟩

theorem Case.reads_readWith {child : σ → Except Failure ModuleSpec} (h : Reads d .spec child) :
    Reads d .branch (Case.readWith child) := by
  refine reads_readRecord ⟨?_, ?_⟩ _ _
  · exact (by decide : ∀ l ∈ [("value", true), ("module", true)],
      Silent l.1 ∧ (l.2 = true → l.1 ∈ Role.branch.required))
  · exact List.forall_mem_cons.2 ⟨fun _ => Payload.reads.assign _,
      List.forall_mem_singleton.2 fun _ => h.assign _⟩

/-- Fields of a module; some that it has to have are among them, or the document lacks them. -/
structure Leaves (d : Facts) (demanded : String → Prop) (rest : List (Content × Content)) :
    Prop where
  /-- Their keys are of the document. -/
  keys : ∀ e ∈ rest, e.1.Covered d .free
  /-- Their values stand for what the keys say. -/
  values : ∀ e ∈ rest, ∀ name, e.1.Leads name → e.2.Covered d (Role.spec.field name)
  /-- What is demanded and is not among them the document lacks. -/
  lacks {name : String} (h : demanded name) (hrest : ∀ e ∈ rest, e.1 ≠ .text name) : d.lacks name

/-- The fields of a module apart from its name and its signature. -/
abbrev Gathered (d : Facts) (rest : List (Content × Content)) : Prop :=
  Leaves d (fun name => name ≠ "id" ∧ Demands (fun c => (.text "type", c) ∈ rest) .spec name) rest

/-- The fields of a module of some type apart from its name, its signature and its type. -/
abbrev Typed (d : Facts) (tag : KindTag) (rest : List (Content × Content)) : Prop :=
  Leaves d (tag.required? = some ·) rest

namespace Kind

variable {child : Content → Except Failure ModuleSpec} {rest : List (Content × Content)}
  {tag : KindTag}

/-- A record of the fields that depend on the type. -/
theorem reports_readRecord {ρ : Type} {fields : List (Field Content ρ)}
    (hrest : Typed d tag rest) (hfields : Accounted d .spec (tag.required? = some ·) fields)
    (start : ρ) : Reports d (readRecord fields false start (.map rest)) :=
  ContentPart.reports_readRecord_map hfields hrest.keys hrest.values (fun _ => hrest.lacks) false
    start

/-- The only field of a kind that has one. -/
theorem reports_readRecord_single {α : Type} {name : String} {required : Bool} {start : α}
    {read : Content → Except Failure α} (hrest : Typed d tag rest)
    (hread : Reads d (Role.spec.field name) read) (hname : Silent name)
    (hrequired : required = true → tag.required? = some name) :
    Reports d (readRecord [⟨name, required, fun v _ => read v⟩] false start (.map rest)) := by
  have hfields : Accounted d .spec (tag.required? = some ·)
      [(⟨name, required, fun v _ => read v⟩ : Field Content α)] :=
    ⟨List.forall_mem_singleton.2 ⟨hname, hrequired⟩, List.forall_mem_singleton.2 fun _ => hread⟩
  exact reports_readRecord hrest hfields start

/-- The fields of a switch demand the condition. -/
theorem accounted_switchFields (h : Reads d .spec child) :
    Accounted d .spec (KindTag.switch.required? = some ·) (switchFields child) := by
  have hcases : Reads d (.list .branch) (readList (Case.readWith child)) :=
    reads_readList fun _ => Case.reads_readWith h
  have hoptional : Reads d .spec fun c : Content => (Source.optional c).mapM child := by
    intro c hc
    have hsome : Reports d ((some c).mapM child) := by
      rw [Option.mapM_some]
      exact .map (h c hc)
    cases c with
    | null => trivial
    | boolean _ | integer _ | floating _ | text _ | list _ | map _ => exact hsome
  constructor
  · exact (by decide : ∀ l ∈ [("condition", true), ("cases", false), ("default", false)],
      Silent l.1 ∧ (l.2 = true → KindTag.switch.required? = some l.1))
  · exact List.forall_mem_cons.2 ⟨fun _ => reads_text.assign _, List.forall_mem_cons.2
      ⟨fun _ => hcases.assign _, List.forall_mem_singleton.2 fun _ => hoptional.assign _⟩⟩

/-- The fields of a kind fail accurately if the children do. -/
theorem reports_readFields (h : Reads d .spec child) (hrest : Typed d tag rest) :
    Reports d (readFields child tag (.map rest)) := by
  cases tag with
  | sequential =>
    have hsteps : Reads d (.list .step) (readList (Step.readWith child)) :=
      reads_readList fun _ => Step.reads_readWith h
    exact .map (reports_readRecord_single hrest hsteps (by decide) nofun)
  | parallel =>
    have hbranches : Reads d (.list .spec) (readList child) := reads_readList fun _ => h
    exact .map (reports_readRecord_single hrest hbranches (by decide) nofun)
  | switch => exact Reports.assign (reports_readRecord hrest (accounted_switchFields h) _) _
  | subWorkflow | llm | tool | jsonExtract =>
    exact .map (reports_readRecord_single hrest reads_text (by decide) fun _ => rfl)
  | http => trivial

/-! ## Types -/

theorem reports_readTag {c : Content} (h : c.Covered d role) : Reports d (readTag c) := by
  have hwords : ∀ n ∈ KindTag.words.flatMap Word.names, Silent n := by decide
  have hunexpected : Reports d (ContentPart.unexpected c "a type" : Except Failure KindTag) :=
    ContentPart.yields_unexpected h (by decide)
  cases h with
  | @text _ s h =>
    have hkey : d.quiet → (Key.name s).Silent := h
    exact reports_findWord hwords hkey
  | integer n =>
    unfold readTag
    dsimp only
    split_ifs
    · exact reports_findWord hwords fun _ => trivial
    · exact hunexpected
  | null | boolean _ | floating _ | list _ | map _ _ _ => exact hunexpected

/-- Where no type stands before and none is among the fields, the document lacks one. -/
theorem reports_takeTag {tag : Option KindTag} {es : List (Content × Content)}
    (hvalues : ∀ e ∈ es, ∀ name, e.1.Leads name → e.2.Covered d (Role.spec.field name))
    (hlacks : tag = none → (∀ e ∈ es, e.1 ≠ .text "type") → d.lacks "type")
    (before : List (Content × Content)) : Reports d (takeTag tag before es) := by
  induction es generalizing tag before with
  | nil =>
    cases tag with
    | none => exact .missing (hlacks rfl nofun)
    | some tag => trivial
  | cons e es ih =>
    obtain ⟨key, c⟩ := e
    obtain ⟨hc, hrest⟩ := List.forall_mem_cons.1 hvalues
    by_cases hkey : key = .text "type"
    · subst hkey
      cases tag with
      | some tag => exact .fault fun _ => Fault.silent_duplicateField (by decide)
      | none =>
        refine (reports_readTag (hc "type" (.inl rfl))).bind fun tag _ _ => ih hrest ?_ before
        exact nofun
    · rw [takeTag]
      · refine ih hrest (fun htag hes => hlacks htag ?_) _
        exact List.forall_mem_cons.2 ⟨hkey, hes⟩
      · intro c' he
        exact hkey (congrArg Prod.fst he)

/-- Only the type itself is taken out of the fields. -/
theorem TakesTag.mem_of_ne {tag' : KindTag} {tag : Option KindTag}
    {es others : List (Content × Content)} (h : TakesTag tag' tag es others)
    {e : Content × Content} (he : e ∈ es) (hkey : e.1 ≠ .text "type") : e ∈ others := by
  induction h with
  | done => exact he
  | type _ _ ih =>
    rcases List.mem_cons.1 he with rfl | he
    · exact absurd rfl hkey
    · exact ih he
  | other _ _ ih =>
    rcases List.mem_cons.1 he with rfl | he
    · exact List.mem_cons_self
    · exact List.mem_cons_of_mem _ (ih he)

/-- The type that is taken is that of a member of its name. -/
theorem TakesTag.exists_type {es others : List (Content × Content)}
    (h : TakesTag tag none es others) :
    ∃ c, (Content.text "type", c) ∈ es ∧ readTag c = .ok tag := by
  generalize hstate : none = state at h
  induction h with
  | done => cases hstate
  | @type tag' c rest others htag h _ =>
    obtain ⟨rfl, _⟩ := h.eq_of_some
    exact ⟨c, List.mem_cons_self, htag⟩
  | other _ _ ih =>
    obtain ⟨c, hc, htag⟩ := ih hstate
    exact ⟨c, List.mem_cons_of_mem _ hc, htag⟩

/-- What is left of the fields of a module when its type has been taken is of that type. -/
theorem TakesTag.leaves {es others : List (Content × Content)} (h : TakesTag tag none es others)
    (hes : Gathered d es) : Typed d tag others where
  keys e he := hes.keys e (h.mem_of_mem he)
  values e he := hes.values e (h.mem_of_mem he)
  lacks := by
    intro name hname hothers
    obtain ⟨c, hc, htag⟩ := h.exists_type
    have hne : name ≠ "id" ∧ name ≠ "type" := by
      cases tag <;> cases hname <;> decide
    refine hes.lacks ⟨hne.1, .ofType hc htag hname⟩ fun e he htext => ?_
    refine hothers e (h.mem_of_ne he fun hkey => hne.2 ?_) htext
    exact Content.text.inj (htext.symm.trans hkey)

end Kind

/-! ## Modules -/

namespace ModuleSpec

variable {s : σ}

/-- Collecting the fields of a module fails accurately. -/
theorem reports_gather {es : Entries σ} (hes : ∀ e ∈ es, Inside d .spec e) (p : Parts) :
    Reports d (gather p es) := by
  induction es generalizing p with
  | nil => trivial
  | cons e rest ih =>
    obtain ⟨key, value⟩ := e
    have hvalue : Inside d .spec (key, value) := hes _ List.mem_cons_self
    have hrest (p : Parts) : Reports d (gather p rest) :=
      ih (fun e he => hes e (List.mem_cons_of_mem _ he)) p
    unfold gather
    refine hvalue.key.bind fun key hkey _ => ?_
    subst hkey
    obtain ⟨name, hname⟩ := key.exists_leads
    have hother {p : Content → Parts} :
        Reports d (Source.content value >>= fun c => gather (p c) rest) :=
      (AccurateSource.content (hvalue.seen hname)).bind fun _ _ _ => hrest _
    split
    · split
      · exact .fault fun _ => Fault.silent_duplicateField (by decide)
      · exact (AccurateSource.text (hvalue.seen hname)).bind fun _ _ _ => hrest _
    · split
      · exact .fault fun _ => Fault.silent_duplicateField (by decide)
      · have hsignature : Known d .signature value :=
          hvalue.known (.inl rfl) (by decide : Silent "signature")
        exact (Signature.reads value hsignature).bind fun _ _ _ => hrest _
    · exact hother
    · exact hother

section

variable {id id' : Option ModuleId} {signature signature' : Option Signature} {entries : Entries σ}
  {others : List (Content × Content)}

omit [Surveyed σ] [AccurateSource σ] in
/-- A name that is not brought about neither stands before nor is among the entries. -/
theorem Gathers.lacking_id (h : Gathers none signature' id signature entries others) :
    id = none ∧ Lacking entries "id" := by
  induction h with
  | done => exact ⟨rfl, nofun⟩
  | id _ _ ih => exact nomatch ih.1
  | signature _ _ ih => exact ⟨ih.1, lacking_cons_iff.2 ⟨by simp, ih.2⟩⟩
  | other hid _ _ _ ih =>
    exact ⟨ih.1, lacking_cons_iff.2 ⟨fun hkey => hid (Except.ok.inj hkey), ih.2⟩⟩

omit [Surveyed σ] [AccurateSource σ] in
/-- Other fields that are not among what is taken over are not among the entries. -/
theorem Gathers.lacking_other (h : Gathers id' signature' id signature entries others)
    {name : String} (hid : name ≠ "id") (hsignature : name ≠ "signature")
    (hothers : ∀ e ∈ others, e.1 ≠ .text name) : Lacking entries name := by
  induction h with
  | done => exact nofun
  | id _ _ ih =>
    refine lacking_cons_iff.2 ⟨fun hkey => hid ?_, ih hothers⟩
    exact (Key.name.inj (Except.ok.inj hkey)).symm
  | signature _ _ ih =>
    refine lacking_cons_iff.2 ⟨fun hkey => hsignature ?_, ih hothers⟩
    exact (Key.name.inj (Except.ok.inj hkey)).symm
  | other _ _ _ _ ih =>
    obtain ⟨hne, hothers⟩ := List.forall_mem_cons.1 hothers
    refine lacking_cons_iff.2 ⟨fun hkey => hne ?_, ih hothers⟩
    exact congrArg Key.content (Except.ok.inj hkey)

omit [Surveyed σ] [AccurateSource σ] in
/-- Each of the other fields is the content of an entry. -/
theorem Gathers.exists_entry (h : Gathers id' signature' id signature entries others)
    {e : Content × Content} (he : e ∈ others) :
    ∃ key part, (.ok key, part) ∈ entries ∧ e.1 = key.content ∧ Source.content part = .ok e.2 := by
  induction h with
  | done => cases he
  | id _ _ ih | signature _ _ ih =>
    obtain ⟨key, part, hmem, hentry⟩ := ih he
    exact ⟨key, part, List.mem_cons_of_mem _ hmem, hentry⟩
  | @other _ _ key part c _ _ _ _ hc _ ih =>
    rcases List.mem_cons.1 he with rfl | he
    · exact ⟨key, part, List.mem_cons_self, rfl, hc⟩
    · obtain ⟨key, part, hmem, hentry⟩ := ih he
      exact ⟨key, part, List.mem_cons_of_mem _ hmem, hentry⟩

theorem leads_of_content {key : Key} {name : String} (h : key.content.Leads name) :
    key.Leads name := by
  cases key with
  | name s =>
    rcases h with h | ⟨n, h⟩
    · exact .inl (congrArg Key.name (Content.text.inj h))
    · cases h
  | index n => exact .inr ⟨n, rfl⟩

/-- What is left of the fields of a module when its name and signature have been taken. -/
theorem Gathers.leaves (h : Gathers id' signature' id signature entries others)
    (hentries : Opened d .spec entries) : Gathered d others where
  keys e he := by
    obtain ⟨key, part, hmem, hkey, _⟩ := h.exists_entry he
    have hinside := hentries.inside _ hmem
    rw [hkey]
    cases key with
    | name s => exact .text hinside.key.1
    | index n => exact .integer n
  values e he name hname := by
    obtain ⟨key, part, hmem, hkey, hc⟩ := h.exists_entry he
    rw [hkey] at hname
    have hcontent := AccurateSource.content
      ((hentries.inside _ hmem).seen (leads_of_content hname))
    rw [hc] at hcontent
    exact hcontent
  lacks := by
    rintro name ⟨hid, hname⟩ hothers
    have hsignature : ∀ name ∈ requiredNames, name ≠ "signature" := by decide
    refine hentries.lacks (hname.mono fun c _ hc _ => ?_)
      (h.lacking_other hid (hsignature name hname.mem_requiredNames) hothers)
    obtain ⟨key, part, hmem, hkey, hcontent⟩ := h.exists_entry hc
    cases key with
    | name s =>
      cases hkey
      exact ⟨_, hmem, rfl, hcontent⟩
    | index n => cases hkey

end

/-- A module fails accurately if the fields of its kind do. -/
theorem reads_readWith {kind : List (Content × Content) → Except Failure (Kind ModuleId ModuleSpec)}
    (hkind : ∀ rest, Gathered d rest → Reports d (kind rest)) :
    Reads d .spec (readWith (σ := σ) kind) := by
  intro s hs
  refine .located hs.placed ((AccurateSource.entries hs).bind fun es _ hes => ?_)
  refine (reports_gather hes.inside _).bind fun p hp _ => ?_
  obtain ⟨others, hothers, htaken⟩ := exists_of_gather_eq_ok hp
  obtain ⟨id, signature, taken⟩ := p
  cases id with
  | none => exact .missing (hes.lacks (.always (by decide)) hothers.lacking_id.2)
  | some id =>
    rw [htaken, List.append_nil, List.reverse_reverse]
    exact Reports.assign (hkind others (hothers.leaves hes)) _

/-- However deep modules may nest, their kinds are decoded accurately. -/
theorem reports_readKindAt (depth : Nat) {rest : List (Content × Content)}
    (hrest : Gathered d rest) : Reports d (readKindAt depth rest) := by
  induction depth generalizing rest with
  | zero => exact .fault fun _ => by decide
  | succ depth ih =>
    have hlacks : (∀ e ∈ rest, e.1 ≠ .text "type") → d.lacks "type" :=
      hrest.lacks ⟨by decide, .always (by decide)⟩
    refine (Kind.reports_takeTag hrest.values (fun _ => hlacks) []).bind fun found hfound _ => ?_
    obtain ⟨tag, others⟩ := found
    have hothers := (Kind.takeTag_eq_ok_iff.1 hfound).leaves hrest
    exact Kind.reports_readFields (reads_readWith fun _ => ih) hothers

theorem reads : Reads d .spec (ModuleSpec.read (σ := σ)) :=
  reads_readWith fun _ => reports_readKindAt _

end ModuleSpec

theorem reads_readDocument : Reads d .document (readDocument (σ := σ)) := by
  have hmodules : Reads d (.list .spec) (readList (ModuleSpec.read (σ := σ))) :=
    reads_readList fun _ => ModuleSpec.reads
  refine reads_readRecord ⟨?_, ?_⟩ _ _
  · exact (by decide : ∀ l ∈ [("modules", false)],
      Silent l.1 ∧ (l.2 = true → l.1 ∈ Role.document.required))
  · exact List.forall_mem_singleton.2 fun _ => hmodules

end WorkflowEngine
