import WorkflowEngine.Proofs.Decoding.Modules
import WorkflowEngine.Toml.Part
import WorkflowEngine.Yaml.Part

/-!
# What decoding gives

Every language of documents forms an object by placing its members by name, so that a part taken as
a JSON value is in order; and a record keeps what each of its fields keeps. Whatever a decoder gives
is therefore in order, in every key of a case and at any depth.
-/

namespace WorkflowEngine

open Decoding

/-! ## Values -/

namespace Content

mutual

/-- Content that is a JSON value is one in order. -/
theorem ordered_of_toJson : (c : Content) → {v : Json} → c.toJson = .ok v → v.Ordered
  | .null, _, h => by
    cases h
    exact .null
  | .boolean b, _, h => by
    cases h
    exact .boolean b
  | .integer n, _, h => by
    cases h
    exact .number _
  | .floating x, _, h => by
    cases h
    cases x <;> constructor
  | .text s, _, h => by
    cases h
    exact .string s
  | .list items, v, h => by
    unfold toJson at h
    split at h
    · rename_i values hvalues
      cases h
      exact .array (ordered_of_toJsonItems items hvalues)
    · cases h
  | .map entries, v, h => by
    unfold toJson at h
    split at h
    · rename_i members hmembers
      cases h
      exact Json.ordered_ofMembers (ordered_of_toJsonEntries entries hmembers)
    · cases h

/-- Items that are JSON values are values in order. -/
theorem ordered_of_toJsonItems : (items : List Content) → {values : List Json} →
    toJsonItems items = .ok values → ∀ v ∈ values, v.Ordered
  | [], _, h => by
    cases h
    exact nofun
  | c :: rest, _, h => by
    unfold toJsonItems at h
    split at h
    · cases h
    · rename_i v hv
      split at h
      · rename_i values hvalues
        cases h
        exact List.forall_mem_cons.2
          ⟨ordered_of_toJson c hv, ordered_of_toJsonItems rest hvalues⟩
      · cases h

/-- Entries that are members of an object have values in order. -/
theorem ordered_of_toJsonEntries : (entries : List (Content × Content)) →
    {members : List (String × Json)} → toJsonEntries entries = .ok members →
    ∀ m ∈ members, m.2.Ordered
  | [], _, h => by
    cases h
    exact nofun
  | (key, c) :: rest, _, h => by
    cases key with
    | text name =>
      unfold toJsonEntries at h
      split at h
      · cases h
      · rename_i v hv
        split at h
        · rename_i members hmembers
          cases h
          exact List.forall_mem_cons.2
            ⟨ordered_of_toJson c hv, ordered_of_toJsonEntries rest hmembers⟩
        · cases h
    | null | boolean _ | integer _ | floating _ | list _ | map _ => cases h

end

end Content

namespace Json.Syntax

mutual

/-- The value of a syntax tree is in order. -/
theorem ordered_of_toJson? : (t : Syntax) → {depth : Nat} → {v : Json} →
    t.toJson? depth = some v → v.Ordered
  | .null, _, _, h => by
    cases h
    exact .null
  | .boolean b, _, _, h => by
    cases h
    exact .boolean b
  | .number n, _, _, h => by
    obtain ⟨n, _, rfl⟩ := Option.map_eq_some_iff.1 h
    exact .number n
  | .string s, _, _, h => by
    obtain ⟨s, _, rfl⟩ := Option.map_eq_some_iff.1 h
    exact .string s
  | .array items, 0, _, h => by cases h
  | .array items, depth + 1, _, h => by
    obtain ⟨values, hvalues, rfl⟩ := Option.map_eq_some_iff.1 h
    exact .array (ordered_of_toItems? items hvalues)
  | .object members, 0, _, h => by cases h
  | .object members, depth + 1, _, h => by
    obtain ⟨values, hvalues, rfl⟩ := Option.map_eq_some_iff.1 h
    exact Json.ordered_ofMembers (ordered_of_toMembers? members hvalues)

/-- The values of items are in order. -/
theorem ordered_of_toItems? : (items : List Syntax) → {depth : Nat} → {values : List Json} →
    toItems? depth items = some values → ∀ v ∈ values, v.Ordered
  | [], _, _, h => by
    cases h
    exact nofun
  | t :: rest, _, _, h => by
    unfold toItems? at h
    split at h
    · rename_i v values hv hvalues
      cases h
      exact List.forall_mem_cons.2 ⟨ordered_of_toJson? t hv, ordered_of_toItems? rest hvalues⟩
    · cases h

/-- The values of members are in order. -/
theorem ordered_of_toMembers? : (members : List (Option String × Syntax)) → {depth : Nat} →
    {values : List (String × Json)} → toMembers? depth members = some values →
    ∀ m ∈ values, m.2.Ordered
  | [], _, _, h => by
    cases h
    exact nofun
  | (name, t) :: rest, _, _, h => by
    unfold toMembers? at h
    split at h
    · rename_i name v values hv hvalues
      cases h
      exact List.forall_mem_cons.2 ⟨ordered_of_toJson? t hv, ordered_of_toMembers? rest hvalues⟩
    · cases h

end

end Json.Syntax

/-- Languages in which a part taken as a JSON value is one in order. -/
class OrderedSource (σ : Type) [Source σ] : Prop where
  /-- The value of a part is in order. -/
  ordered {s : σ} {v : Json} : Source.json s = .ok v → v.Ordered

instance : OrderedSource Content where
  ordered {c v} h := by
    simp only [Source.json] at h
    split at h
    · rename_i v' hv
      cases h
      exact c.ordered_of_toJson hv
    · cases h

instance : OrderedSource JsonPart where
  ordered {p v} h := by
    simp only [Source.json] at h
    split at h
    · rename_i v' hv
      cases h
      exact p.tree.ordered_of_toJson? hv
    · cases h

instance : OrderedSource Yaml.Part where
  ordered h := by
    obtain ⟨c, _, hc⟩ := bind_eq_ok_iff.1 h
    exact OrderedSource.ordered hc

instance : OrderedSource Toml.Node where
  ordered {n v} h := by
    simp only [Source.json] at h
    split at h
    · rename_i v' hv
      cases h
      exact n.toContent.ordered_of_toJson hv
    · cases h

/-! ## Records and lists -/

namespace Decoding

variable {σ ρ α β : Type} {I : ρ → Prop} {fields : List (Field σ ρ)}

/-- A field that keeps what holds of a record. -/
def Field.Keeps (I : ρ → Prop) (f : Field σ ρ) : Prop :=
  ∀ s r r', I r → f.read s r = .ok r' → I r'

/-- A field into which a decoded part is put keeps what still holds with this part. -/
theorem Field.keeps_of_assign {name : String} {required : Bool} {read : σ → Except Failure β}
    {g : ρ → β → ρ} (h : ∀ p r b, I r → read p = .ok b → I (g r b)) :
    (Field.mk name required fun v r => do return g r (← read v)).Keeps I := by
  intro s r r' hr hread
  obtain ⟨b, hb, hread⟩ := bind_eq_ok_iff.1 hread
  cases hread
  exact h s r b hr hb

/-- A field that is found by a key is one of the fields. -/
theorem mem_of_findField {key : Key} {f : Field σ ρ} (h : findField fields key = some f) :
    f ∈ fields := by
  cases key with
  | name s => exact List.mem_of_find?_eq_some h
  | index n => exact List.mem_of_getElem? h

variable [Source σ]

/-- Whatever the fields of a record keep is kept by a record that is given by names. -/
theorem invariant_readNamed (hfields : ∀ f ∈ fields, f.Keeps I) {strict : Bool}
    {entries : Entries σ} {seen seen' : List String} {r r' : ρ} (hr : I r)
    (h : readNamed fields strict seen r entries = .ok (seen', r')) : I r' := by
  induction entries generalizing seen r with
  | nil =>
    cases h
    exact hr
  | cons e rest ih =>
    obtain ⟨key, value⟩ := e
    unfold readNamed at h
    obtain ⟨key, _, h⟩ := bind_eq_ok_iff.1 h
    split at h
    · rename_i f hf
      split at h
      · cases h
      · obtain ⟨r₁, hread, h⟩ := bind_eq_ok_iff.1 h
        exact ih (hfields f (mem_of_findField hf) value r r₁ hr hread) h
    · split at h
      · cases h
      · obtain ⟨_, _, h⟩ := bind_eq_ok_iff.1 h
        exact ih hr h

/-- Whatever the fields of a record keep is kept by a record that is given by a list. -/
theorem invariant_readListed (hfields : ∀ f ∈ fields, f.Keeps I) {place : Nat} {items : List σ}
    {r r' : ρ} (hr : I r) (h : readListed place r fields items = .ok r') : I r' := by
  induction fields generalizing place items r with
  | nil =>
    cases items with
    | nil =>
      cases h
      exact hr
    | cons value rest =>
      unfold readListed at h
      split at h
      · cases h
      · cases h
        exact hr
  | cons f rest ih =>
    have hrest := fun g hg => hfields g (List.mem_cons_of_mem f hg)
    cases items with
    | nil =>
      unfold readListed at h
      split at h
      · cases h
      · exact ih hrest hr h
    | cons value items =>
      obtain ⟨r₁, hread, h⟩ := bind_eq_ok_iff.1 h
      exact ih hrest (hfields f List.mem_cons_self value r r₁ hr hread) h

/-- A decoded record has what it starts with and every field keeps. -/
theorem invariant_readRecord {strict : Bool} {start r : ρ} {s : σ}
    (h : readRecord fields strict start s = .ok r) (hstart : I start)
    (hfields : ∀ f ∈ fields, f.Keeps I) : I r := by
  obtain ⟨layout, _, h⟩ := bind_eq_ok_iff.1 (located_eq_ok_iff.1 h)
  cases layout with
  | list items => exact invariant_readListed hfields hstart h
  | named entries =>
    obtain ⟨⟨seen, r'⟩, hnamed, h⟩ := bind_eq_ok_iff.1 h
    obtain ⟨_, _, h⟩ := bind_eq_ok_iff.1 h
    cases h
    exact invariant_readNamed hfields hstart hnamed

/-- A record of one field is what it starts with or what its field is decoded into. -/
theorem eq_or_exists_of_readRecord_single {name : String} {required strict : Bool} {start a : α}
    {read : σ → Except Failure α} {s : σ}
    (h : readRecord [⟨name, required, fun v _ => read v⟩] strict start s = .ok a) :
    a = start ∨ ∃ p, read p = .ok a := by
  refine invariant_readRecord (I := fun a => a = start ∨ ∃ p, read p = .ok a) h (.inl rfl) ?_
  rw [List.forall_mem_singleton]
  exact fun p _ _ _ hread => .inr ⟨p, hread⟩

/-- The items of a decoded list were decoded one by one. -/
theorem exists_of_readList {read : σ → Except Failure α} {s : σ} {items : List α}
    (h : readList read s = .ok items) {a : α} (ha : a ∈ items) : ∃ p, read p = .ok a := by
  obtain ⟨parts, _, h⟩ := bind_eq_ok_iff.1 (located_eq_ok_iff.1 h)
  obtain ⟨p, _, hp⟩ := exists_mem_of_forall₂ (mapM_eq_ok_iff.1 h) ha
  exact ⟨p, hp⟩

end Decoding

/-! ## Specifications -/

variable {σ : Type} [Source σ] {s : σ}

theorem Payload.ordered_of_read [OrderedSource σ] {p : Payload} (h : Payload.read s = .ok p) :
    p.Ordered := by
  obtain ⟨v, hv, rfl⟩ := map_eq_ok_iff.1 h
  exact ordered_ofJson (OrderedSource.ordered hv)

theorem Value.ordered_of_read [OrderedSource σ] {v : Value} (h : Value.read s = .ok v) :
    v.payload.Ordered := by
  refine invariant_readRecord (I := fun v => v.payload.Ordered) h .null ?_
  refine List.forall_mem_cons.2 ⟨?_, List.forall_mem_singleton.2 ?_⟩
  · exact Field.keeps_of_assign fun _ _ _ hr _ => hr
  · exact Field.keeps_of_assign fun _ _ _ _ hpayload => Payload.ordered_of_read hpayload

theorem ModuleSpec.ordered_default : (default : ModuleSpec).Ordered := .mk nofun nofun

theorem Step.ordered_of_readWith {child : σ → Except Failure ModuleSpec}
    (hchild : ∀ p c, child p = .ok c → c.Ordered) {t : Step ModuleSpec}
    (h : Step.readWith child s = .ok t) : t.child.Ordered := by
  refine invariant_readRecord (I := fun t => t.child.Ordered) h ModuleSpec.ordered_default ?_
  refine List.forall_mem_cons.2 ⟨?_, List.forall_mem_singleton.2 ?_⟩
  · exact Field.keeps_of_assign fun p _ c _ hc => hchild p c hc
  · exact Field.keeps_of_assign fun _ _ _ hr _ => hr

/-- A case is decoded in order if its module is; its key is anyway. -/
theorem Case.ordered_of_readWith [OrderedSource σ] {child : σ → Except Failure ModuleSpec}
    (hchild : ∀ p c, child p = .ok c → c.Ordered) {c : Case ModuleSpec}
    (h : Case.readWith child s = .ok c) : c.key.Ordered ∧ c.child.Ordered := by
  refine invariant_readRecord (I := fun c => c.key.Ordered ∧ c.child.Ordered) h
    ⟨.null, ModuleSpec.ordered_default⟩ ?_
  refine List.forall_mem_cons.2 ⟨?_, List.forall_mem_singleton.2 ?_⟩
  · exact Field.keeps_of_assign fun _ _ _ hr hkey => ⟨Payload.ordered_of_read hkey, hr.2⟩
  · exact Field.keeps_of_assign fun p _ c hr hc => ⟨hr.1, hchild p c hc⟩

namespace Kind

variable {child : Content → Except Failure ModuleSpec}

/-- A decoded switch has keys and children in order. -/
theorem ordered_of_readRecord_switchFields (hchild : ∀ p c, child p = .ok c → c.Ordered)
    {c : Content} {parts : SwitchParts}
    (h : readRecord (switchFields child) false ⟨"", [], none⟩ c = .ok parts) :
    (Kind.switch parts.condition parts.cases parts.fallback).Ordered := by
  have hparts : (∀ c ∈ parts.cases, c.key.Ordered ∧ c.child.Ordered) ∧
      ∀ d ∈ parts.fallback, d.Ordered := by
    refine invariant_readRecord (I := fun parts : SwitchParts =>
      (∀ c ∈ parts.cases, c.key.Ordered ∧ c.child.Ordered) ∧ ∀ d ∈ parts.fallback, d.Ordered) h
      ⟨nofun, nofun⟩ ?_
    refine List.forall_mem_cons.2 ⟨?_, List.forall_mem_cons.2 ⟨?_, List.forall_mem_singleton.2 ?_⟩⟩
    · exact Field.keeps_of_assign fun _ _ _ hr _ => hr
    · refine Field.keeps_of_assign fun p r cases hr hcases => ⟨fun c hc => ?_, hr.2⟩
      obtain ⟨p', hp'⟩ := exists_of_readList hcases hc
      exact Case.ordered_of_readWith hchild hp'
    · refine Field.keeps_of_assign fun p r fallback hr hfallback => ⟨hr.1, fun d hd => ?_⟩
      have hrel := mapM_option_eq_ok_iff.1 hfallback
      generalize Source.optional p = part at hrel
      cases hd
      cases hrel with
      | some hd => exact hchild _ d hd
  constructor
  · intro key hkey
    obtain ⟨c, hc, rfl⟩ := List.mem_map.1 hkey
    exact (hparts.1 c hc).1
  · intro d hd
    rcases List.mem_append.1 hd with hd | hd
    · obtain ⟨c, hc, rfl⟩ := List.mem_map.1 hd
      exact (hparts.1 c hc).2
    · exact hparts.2 d (Option.mem_toList.1 hd)

/-- The fields of a kind are decoded into one in order if children are. -/
theorem ordered_of_readFields (hchild : ∀ p c, child p = .ok c → c.Ordered) {tag : KindTag}
    {rest : Content} {k : Kind ModuleId ModuleSpec} (h : readFields child tag rest = .ok k) :
    k.Ordered := by
  cases tag with
  | sequential =>
    obtain ⟨steps, hsteps, rfl⟩ := map_eq_ok_iff.1 h
    refine ⟨nofun, fun c hc => ?_⟩
    obtain ⟨t, ht, rfl⟩ := List.mem_map.1 hc
    rcases eq_or_exists_of_readRecord_single hsteps with rfl | ⟨p, hp⟩
    · cases ht
    · obtain ⟨p', hp'⟩ := exists_of_readList hp ht
      exact Step.ordered_of_readWith hchild hp'
  | parallel =>
    obtain ⟨branches, hbranches, rfl⟩ := map_eq_ok_iff.1 h
    refine ⟨nofun, fun c hc => ?_⟩
    rcases eq_or_exists_of_readRecord_single hbranches with rfl | ⟨p, hp⟩
    · cases hc
    · obtain ⟨p', hp'⟩ := exists_of_readList hp hc
      exact hchild p' c hp'
  | switch =>
    obtain ⟨parts, hparts, h⟩ := bind_eq_ok_iff.1 h
    cases h
    exact ordered_of_readRecord_switchFields hchild hparts
  | subWorkflow | llm | tool | jsonExtract =>
    obtain ⟨_, _, rfl⟩ := map_eq_ok_iff.1 h
    exact ⟨nofun, nofun⟩
  | http =>
    change readNoField .http rest = .ok k at h
    unfold readNoField at h
    split at h <;> cases h
    exact ⟨nofun, nofun⟩

end Kind

namespace ModuleSpec

/-- A module is decoded in order if its kind is. -/
theorem ordered_of_readWith
    {kind : List (Content × Content) → Except Failure (Kind ModuleId ModuleSpec)}
    (hkind : ∀ entries k, kind entries = .ok k → k.Ordered) {t : ModuleSpec}
    (h : readWith kind s = .ok t) : t.Ordered := by
  obtain ⟨entries, _, h⟩ := bind_eq_ok_iff.1 (located_eq_ok_iff.1 h)
  obtain ⟨parts, _, h⟩ := bind_eq_ok_iff.1 h
  split at h
  · cases h
  · obtain ⟨k, hk, h⟩ := bind_eq_ok_iff.1 h
    cases h
    exact ordered_mk_iff.2 (hkind _ k hk)

/-- However deep modules may nest, their kinds are decoded in order. -/
theorem ordered_of_readKindAt {depth : Nat} {entries : List (Content × Content)}
    {k : Kind ModuleId ModuleSpec} (h : readKindAt depth entries = .ok k) : k.Ordered := by
  induction depth generalizing entries k with
  | zero => cases h
  | succ depth ih =>
    obtain ⟨⟨tag, rest⟩, _, h⟩ := bind_eq_ok_iff.1 h
    exact Kind.ordered_of_readFields
      (fun p c hc => ordered_of_readWith (fun entries k hk => ih hk) hc) h

/-- A decoded module is in order. -/
theorem ordered_of_read {t : ModuleSpec} (h : read s = .ok t) : t.Ordered :=
  ordered_of_readWith (fun _ _ hk => ordered_of_readKindAt hk) h

end ModuleSpec

theorem Kind.ordered_of_read {k : Kind ModuleId ModuleSpec} (h : Kind.read s = .ok k) :
    k.Ordered := by
  have hchild (p : Content) (c : ModuleSpec) (hc : ModuleSpec.read p = .ok c) : c.Ordered :=
    ModuleSpec.ordered_of_read hc
  obtain ⟨layout, _, h⟩ := bind_eq_ok_iff.1 (located_eq_ok_iff.1 h)
  split at h
  · obtain ⟨⟨tag, rest⟩, _, h⟩ := bind_eq_ok_iff.1 h
    exact ordered_of_readFields hchild h
  · cases h
  · obtain ⟨name, _, h⟩ := bind_eq_ok_iff.1 h
    obtain ⟨tag, _, h⟩ := bind_eq_ok_iff.1 h
    obtain ⟨contents, _, h⟩ := bind_eq_ok_iff.1 h
    exact ordered_of_readFields hchild h

/-- All modules of a document are decoded in order. -/
theorem ordered_of_readDocument {specs : List ModuleSpec} (h : readDocument s = .ok specs) :
    ∀ t ∈ specs, t.Ordered := by
  intro t ht
  rcases eq_or_exists_of_readRecord_single h with rfl | ⟨p, hp⟩
  · cases ht
  · obtain ⟨p', hp'⟩ := exists_of_readList hp ht
    exact ModuleSpec.ordered_of_read hp'

end WorkflowEngine
