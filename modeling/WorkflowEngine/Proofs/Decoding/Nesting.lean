import WorkflowEngine.Proofs.Decoding.Gathering

/-!
# Levels of nesting

The levels that decoding the fields of a kind may spend are no limit: a child is a part of the
content and nests less deep, and levels beyond the nesting change nothing. So the fields of a kind
are decoded by decoding the children as modules.
-/

namespace WorkflowEngine

open Decoding

variable {ρ α : Type}

namespace Decoding

/-- Whether two decoders agree on all content that nests less than `n` deep. -/
def AgreeBelow (n : Nat) (f g : Content → Except Failure α) : Prop :=
  ∀ c : Content, c.depth < n → f c = g c

/-- Fields of one name whose decoders agree on all content that nests less than `n` deep. -/
structure Field.AgreeBelow (n : Nat) (f g : Field Content ρ) : Prop where
  /-- The name is the same. -/
  name : f.name = g.name
  /-- Both have to be there or neither. -/
  required : f.required = g.required
  /-- Both are decoded in the same way. -/
  read : ∀ c : Content, c.depth < n → f.read c = g.read c

variable {n : Nat}

theorem Field.AgreeBelow.refl (f : Field Content ρ) : Field.AgreeBelow n f f :=
  ⟨rfl, rfl, fun _ _ => rfl⟩

/-- Fields that decode a part and put it into the record agree if the decoders of the part do. -/
theorem Field.AgreeBelow.assign {f g : Content → Except Failure α} (h : Decoding.AgreeBelow n f g)
    (name : String) (required : Bool) (put : α → ρ → ρ) :
    Field.AgreeBelow n ⟨name, required, fun v r => return put (← f v) r⟩
      ⟨name, required, fun v r => return put (← g v) r⟩ :=
  ⟨rfl, rfl, fun c hc => funext fun r => congrArg (· >>= fun a => pure (put a r)) (h c hc)⟩

/-- Lists agree on content that nests at most `n` deep if their items agree below. -/
theorem readList_of_agreeBelow {f g : Content → Except Failure α} (h : AgreeBelow n f g)
    {c : Content} (hc : c.depth ≤ n) : readList f c = readList g c := by
  cases c with
  | list items =>
    have hitems : items.mapM f = items.mapM g :=
      mapM_congr fun c' hc' => h c' (Nat.lt_of_le_of_lt (Content.depth_le_depthItems hc') hc)
    exact congrArg (located (Content.list items)) hitems
  | null | boolean _ | integer _ | floating _ | text _ | map _ => rfl

/-! ## Records -/

variable {fields fields' : List (Field Content ρ)}

theorem findField_of_agreeBelow (h : List.Forall₂ (Field.AgreeBelow n) fields fields') (key : Key) :
    Option.Rel (Field.AgreeBelow n) (findField fields key) (findField fields' key) := by
  cases key with
  | name s =>
    induction h with
    | nil => exact .none
    | @cons f g fields fields' hfg _ ih =>
      simp only [findField, List.find?_cons, hfg.name] at ih ⊢
      split
      · exact .some hfg
      · exact ih
  | index i =>
    induction h generalizing i with
    | nil => exact .none
    | cons hfg _ ih =>
      cases i with
      | zero => exact .some hfg
      | succ i => exact ih i

theorem unknownKey_of_agreeBelow (h : List.Forall₂ (Field.AgreeBelow n) fields fields')
    (key : Key) : unknownKey fields key = unknownKey fields' key := by
  have hnames : fields.map Field.name = fields'.map Field.name := by
    induction h with
    | nil => rfl
    | cons hfg _ ih => rw [List.map_cons, List.map_cons, hfg.name, ih]
  cases key with
  | name s => rw [unknownKey, unknownKey, hnames]
  | index i => rfl

theorem checkRequired_of_agreeBelow (h : List.Forall₂ (Field.AgreeBelow n) fields fields')
    (seen : List String) : checkRequired fields seen = checkRequired fields' seen := by
  unfold checkRequired
  induction h with
  | nil => rfl
  | @cons f g fields fields' hfg _ ih =>
    rw [List.find?_cons, List.find?_cons, hfg.name, hfg.required]
    cases g.required && decide (g.name ∉ seen) with
    | true => exact congrArg (fun name => fault (.missingField name)) hfg.name
    | false => exact ih

theorem readNamed_of_agreeBelow (h : List.Forall₂ (Field.AgreeBelow n) fields fields')
    {entries : Entries Content} (hentries : ∀ e ∈ entries, e.2.depth < n) (strict : Bool)
    (seen : List String) (r : ρ) :
    readNamed fields strict seen r entries = readNamed fields' strict seen r entries := by
  induction entries generalizing seen r with
  | nil => rfl
  | cons e entries ih =>
    obtain ⟨key, value⟩ := e
    have ih := ih fun e he => hentries e (List.mem_cons_of_mem _ he)
    have hvalue : value.depth < n := hentries (key, value) List.mem_cons_self
    unfold readNamed
    refine bind_congr fun key => ?_
    have hfield := findField_of_agreeBelow h key
    cases hf : findField fields key with
    | none =>
      cases hg : findField fields' key with
      | none => simp only [unknownKey_of_agreeBelow h, ih]
      | some g => rw [hf, hg] at hfield; cases hfield
    | some f =>
      cases hg : findField fields' key with
      | none => rw [hf, hg] at hfield; cases hfield
      | some g =>
        rw [hf, hg] at hfield
        cases hfield with
        | some hfg => simp only [hfg.name, hfg.read value hvalue, ih]

theorem readListed_of_agreeBelow (h : List.Forall₂ (Field.AgreeBelow n) fields fields')
    {items : List Content} (hitems : ∀ c ∈ items, c.depth < n) (place : Nat) (r : ρ) :
    readListed place r fields items = readListed place r fields' items := by
  induction h generalizing items place r with
  | nil => rfl
  | @cons f g fields fields' hfg _ ih =>
    cases items with
    | nil =>
      have hrest := ih (List.forall_mem_nil fun c : Content => c.depth < n) (place + 1) r
      unfold readListed
      rw [hfg.required, hrest]
    | cons c items =>
      unfold readListed
      rw [hfg.read c (hitems c List.mem_cons_self)]
      exact bind_congr fun r => ih (fun c hc => hitems c (List.mem_cons_of_mem _ hc)) _ r

/-- Records agree on content that nests at most `n` deep if their fields agree below. -/
theorem readRecord_of_agreeBelow (h : List.Forall₂ (Field.AgreeBelow n) fields fields')
    {c : Content} (hc : c.depth ≤ n) (strict : Bool) (start : ρ) :
    readRecord fields strict start c = readRecord fields' strict start c := by
  cases c with
  | list items =>
    refine congrArg (located (Content.list items)) (readListed_of_agreeBelow h ?_ 0 start)
    intro c' hc'
    exact Nat.lt_of_le_of_lt (Content.depth_le_depthItems hc') hc
  | map entries =>
    have hentries : ∀ e ∈ ContentPart.asEntries entries, e.2.depth < n := by
      intro e he
      obtain ⟨e', he', rfl⟩ := List.mem_map.1 he
      exact Nat.lt_of_le_of_lt (Content.depth_le_depthEntries he') hc
    have hread : readEntries fields strict start (ContentPart.asEntries entries) =
        readEntries fields' strict start (ContentPart.asEntries entries) := by
      unfold readEntries
      rw [readNamed_of_agreeBelow h hentries]
      simp only [checkRequired_of_agreeBelow h]
    exact congrArg (located (Content.map entries)) hread
  | null | boolean _ | integer _ | floating _ | text _ => rfl

end Decoding

/-! ## Kinds -/

section Kinds

variable {n : Nat} {child child' : Content → Except Failure ModuleSpec}

theorem Step.readWith_of_agreeBelow (h : AgreeBelow n child child') {c : Content}
    (hc : c.depth ≤ n) : Step.readWith child c = Step.readWith child' c :=
  readRecord_of_agreeBelow (.cons (.assign h _ _ _) (.cons (.refl _) .nil)) hc _ _

theorem Case.readWith_of_agreeBelow (h : AgreeBelow n child child') {c : Content}
    (hc : c.depth ≤ n) : Case.readWith child c = Case.readWith child' c :=
  readRecord_of_agreeBelow (.cons (.refl _) (.cons (.assign h _ _ _) .nil)) hc _ _

namespace Kind

/-- A field that may be left out agrees if what it has does. -/
theorem readOptionalField_of_agreeBelow {f g : Content → Except Failure α} (h : AgreeBelow n f g)
    {c : Content} (hc : c.depth ≤ n) (name : String) (start : α) :
    readOptionalField name start f c = readOptionalField name start g c := by
  have hfield : Field.AgreeBelow n (⟨name, false, fun v _ => f v⟩ : Field Content α)
      ⟨name, false, fun v _ => g v⟩ := ⟨rfl, rfl, fun c hc => funext fun _ => h c hc⟩
  exact readRecord_of_agreeBelow (.cons hfield .nil) hc _ _

/-- The fields of a kind agree on content that nests at most `n` deep if the children agree
below. -/
theorem readFields_of_agreeBelow (h : AgreeBelow n child child') (tag : KindTag) {c : Content}
    (hc : c.depth ≤ n) : readFields child tag c = readFields child' tag c := by
  cases tag with
  | sequential =>
    have hsteps : AgreeBelow n (readList (Step.readWith child)) (readList (Step.readWith child')) :=
      fun c hc => readList_of_agreeBelow
        (fun c' hc' => Step.readWith_of_agreeBelow h (Nat.le_of_lt hc')) (Nat.le_of_lt hc)
    exact congrArg (Kind.sequential <$> ·) (readOptionalField_of_agreeBelow hsteps hc _ _)
  | parallel =>
    have hbranches : AgreeBelow n (readList child) (readList child') :=
      fun c hc => readList_of_agreeBelow h (Nat.le_of_lt hc)
    exact congrArg (Kind.parallel <$> ·) (readOptionalField_of_agreeBelow hbranches hc _ _)
  | switch =>
    have hcases : AgreeBelow n (readList (Case.readWith child)) (readList (Case.readWith child')) :=
      fun c hc => readList_of_agreeBelow
        (fun c' hc' => Case.readWith_of_agreeBelow h (Nat.le_of_lt hc')) (Nat.le_of_lt hc)
    have hfallback : AgreeBelow n (fun c => (Source.optional c).mapM child)
        (fun c => (Source.optional c).mapM child') := by
      intro c hc
      cases c with
      | null => rfl
      | _ => exact congrArg (some <$> ·) (h _ hc)
    have hfields : List.Forall₂ (Field.AgreeBelow n) (switchFields child) (switchFields child') :=
      .cons (.refl _) (.cons (.assign hcases _ _ _) (.cons (.assign hfallback _ _ _) .nil))
    unfold readFields
    rw [readRecord_of_agreeBelow hfields hc]
  | subWorkflow | llm | tool | http | jsonExtract => rfl

end Kind

end Kinds

/-! ## Modules -/

/-- The entries of a map nest as deep as the deepest key or value. -/
theorem Content.depthEntries_le_iff {entries : List (Content × Content)} {n : Nat} :
    depthEntries entries ≤ n ↔ ∀ e ∈ entries, e.1.depth ≤ n ∧ e.2.depth ≤ n := by
  induction entries with
  | nil => exact iff_of_true (Nat.zero_le n) (List.forall_mem_nil _)
  | cons e rest ih =>
    obtain ⟨k, v⟩ := e
    rw [depthEntries, Nat.max_le, Nat.max_le, ih, List.forall_mem_cons]

/-- Taking the type out of the fields of a module leaves nothing that nests deeper. -/
theorem Kind.depth_of_takeTag {es : List (Content × Content)}
    {found : KindTag × List (Content × Content)} (h : takeTag none [] es = .ok found) :
    (Content.map found.2).depth ≤ Content.depthEntries es + 1 := by
  refine Nat.succ_le_succ (Content.depthEntries_le_iff.2 fun e he => ?_)
  exact Content.depthEntries_le_iff.1 (Nat.le_refl _) e ((takeTag_eq_ok_iff.1 h).mem_of_mem he)

namespace ModuleSpec

/-- Decoders of a module agree if those of the fields of its kind do, on fields that nest less deep
than the module. -/
theorem readWith_congr {kind kind' : List (Content × Content) →
      Except Failure (Kind ModuleId ModuleSpec)} {c : Content}
    (h : ∀ es, Content.depthEntries es < c.depth → kind es = kind' es) :
    readWith kind c = readWith kind' c := by
  cases c with
  | map entries =>
    refine congrArg (located (Content.map entries)) ?_
    refine bind_congr_of_ok fun parts hparts => bind_congr_of_ok fun p hp => ?_
    obtain rfl := Except.ok.inj hparts
    obtain ⟨others, hgathers, hothers⟩ := exists_of_gather_eq_ok hp
    have hdepth : Content.depthEntries p.others.reverse < (Content.map entries).depth := by
      rw [hothers, List.append_nil, List.reverse_reverse]
      refine Nat.lt_succ_of_le (Content.depthEntries_le_iff.2 fun e he => ?_)
      obtain ⟨hkey, b, hb, hc⟩ := hgathers.exists_of_mem he
      obtain ⟨b', hb', rfl⟩ := List.mem_map.1 hb
      have hvalue : b'.2 = e.2 := Except.ok.inj hc
      exact ⟨hkey ▸ Nat.zero_le _, hvalue ▸ Content.depth_le_depthEntries hb'⟩
    simp only [h _ hdepth]
  | null | boolean _ | integer _ | floating _ | text _ | list _ => rfl

/-- The fields of a kind are decoded alike at any depth that is deep enough for them. -/
theorem readKindAt_congr {n n' : Nat} {es : List (Content × Content)}
    (hn : Content.depthEntries es < n) (hn' : Content.depthEntries es < n') :
    readKindAt n es = readKindAt n' es := by
  induction n generalizing n' es with
  | zero => exact absurd hn (Nat.not_lt_zero _)
  | succ n ih =>
    obtain ⟨n', rfl⟩ := Nat.exists_eq_add_one_of_ne_zero (Nat.ne_zero_of_lt hn')
    refine bind_congr_of_ok fun found hfound => ?_
    obtain ⟨tag, rest⟩ := found
    refine Kind.readFields_of_agreeBelow ?_ tag (Kind.depth_of_takeTag hfound)
    intro c hc
    exact readWith_congr fun es' hes' => ih (by omega) (by omega)

/-- The fields of a kind are decoded by decoding its children as modules. -/
theorem readKind_eq (es : List (Content × Content)) :
    readKind es =
      Kind.takeTag none [] es >>= fun found => Kind.readFields read found.1 (.map found.2) := by
  refine bind_congr_of_ok fun found hfound => ?_
  refine Kind.readFields_of_agreeBelow ?_ found.1 (Kind.depth_of_takeTag hfound)
  intro c hc
  exact readWith_congr fun es' hes' => readKindAt_congr (by omega) (Nat.lt_succ_self _)

end ModuleSpec

end WorkflowEngine
