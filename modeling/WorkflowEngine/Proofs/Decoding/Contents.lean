import WorkflowEngine.Proofs.Decoding.Causes

/-!
# Content of a document

Content that was taken over from a document quotes its own texts when it is not what it should be.
Of its maps it is known which fields they lack; where it stood is known no longer.
-/

namespace WorkflowEngine

open Decoding

variable {d : Facts} {role : Role} {α : Type} {P : α → Prop}

namespace Content

/-- What is quoted of content is silent in a quiet document. -/
theorem Covered.silent_describe {c : Content} (h : c.Covered d role) (hquiet : d.quiet) :
    Silent (describe c) := by
  refine Decoding.silent_describe ?_
  rintro s rfl
  cases h with
  | text h => exact h hquiet

mutual

/-- A key that is no text is of the document. -/
theorem covered_of_toJson_error : (c : Content) → {role : Role} → c.Covered d role →
    {k : Content} → c.toJson = .error k → k.Covered d .free
  | .list items, role, h, k, hk => by
    cases h with
    | list h =>
      unfold toJson at hk
      split at hk
      · cases hk
      · rename_i e he
        cases hk
        exact covered_of_toJsonItems_error items (fun c hc => h c hc "") he
  | .map entries, role, h, k, hk => by
    cases h with
    | map hkeys hvalues _ =>
      unfold toJson at hk
      split at hk
      · cases hk
      · rename_i e he
        cases hk
        exact covered_of_toJsonEntries_error entries hkeys hvalues he
  | .null, _, _, _, hk | .boolean _, _, _, _, hk | .integer _, _, _, _, hk
  | .floating _, _, _, _, hk | .text _, _, _, _, hk => nomatch hk

/-- So is one in the items of a list. -/
theorem covered_of_toJsonItems_error : (items : List Content) → {role : Role} →
    (∀ c ∈ items, c.Covered d role) → {k : Content} → toJsonItems items = .error k →
    k.Covered d .free
  | [], _, _, _, hk => nomatch hk
  | c :: rest, role, h, k, hk => by
    obtain ⟨hc, hrest⟩ := List.forall_mem_cons.1 h
    unfold toJsonItems at hk
    split at hk
    · rename_i e he
      cases hk
      exact covered_of_toJson_error c hc he
    · split at hk
      · cases hk
      · rename_i e he
        cases hk
        exact covered_of_toJsonItems_error rest hrest he

/-- So is one that is a key of a map, or in a key or a value of it. -/
theorem covered_of_toJsonEntries_error : (entries : List (Content × Content)) → {role : Role} →
    (∀ e ∈ entries, e.1.Covered d .free) →
    (∀ e ∈ entries, ∀ name, e.1.Leads name → e.2.Covered d (role.field name)) → {k : Content} →
    toJsonEntries entries = .error k → k.Covered d .free
  | [], _, _, _, _, hk => nomatch hk
  | (key, c) :: rest, role, hkeys, hvalues, k, hk => by
    obtain ⟨hkey, hkeys'⟩ := List.forall_mem_cons.1 hkeys
    obtain ⟨hc, hvalues'⟩ := List.forall_mem_cons.1 hvalues
    cases key with
    | text name =>
      unfold toJsonEntries at hk
      split at hk
      · rename_i e he
        cases hk
        exact covered_of_toJson_error c (hc name (.inl rfl)) he
      · split at hk
        · cases hk
        · rename_i e he
          cases hk
          exact covered_of_toJsonEntries_error rest hkeys' hvalues' he
    | null | boolean _ | integer _ | floating _ | list _ | map _ =>
      cases hk
      exact hkey

end

end Content

namespace Decoding.ContentPart

instance : Surveyed Content where
  Placed _ := True
  Covered := Content.Covered

/-- Content is seen wherever it stands: it is quoted without a place. -/
theorem seen_iff {c : Content} : Seen d role c ↔ c.Covered d role :=
  ⟨Seen.covered, fun h => ⟨fun _ => trivial, h⟩⟩

theorem known_iff {c : Content} : Known d role c ↔ c.Covered d role :=
  ⟨Known.covered, fun h => ⟨trivial, h⟩⟩

/-- Content of another kind than expected is quoted. -/
theorem yields_unexpected {c : Content} (h : c.Covered d role) {expected : String}
    (he : Silent expected) : Yields d P (unexpected c expected) :=
  .fault fun hquiet => Fault.silent_invalidType (h.silent_describe hquiet) he

theorem yields_key {c : Content} (h : c.Covered d role) :
    Yields d (fun k => d.quiet → k.Silent) (key c) := by
  have hunexpected : Yields d (fun k : Key => d.quiet → k.Silent) (unexpected c "a field") :=
    yields_unexpected h (.ofList (by decide))
  cases h with
  | text h => exact h
  | integer n =>
    unfold key
    dsimp only
    split_ifs
    · exact fun _ => trivial
    · exact hunexpected
  | null | boolean _ | floating _ | list _ | map _ _ _ => exact hunexpected

/-- Where content leads as an entry, it leads as a key. -/
theorem leads_of_key {c : Content} {k : Key} (h : key c = .ok k) {name : String}
    (hname : k.Leads name) : c.Leads name := by
  cases c with
  | text s =>
    cases h
    rcases hname with h | ⟨n, h⟩
    · cases h
      exact .inl rfl
    · cases h
  | integer n => exact .inr ⟨n, rfl⟩
  | null | boolean _ | floating _ | list _ | map _ => cases h

/-- The entries of a map of content are inside the document. -/
theorem inside_asEntries {es : List (Content × Content)} (hkeys : ∀ e ∈ es, e.1.Covered d .free)
    (hvalues : ∀ e ∈ es, ∀ name, e.1.Leads name → e.2.Covered d (role.field name)) :
    ∀ e ∈ asEntries es, Inside d role e := by
  intro _ hentry
  obtain ⟨e, he, rfl⟩ := List.mem_map.1 hentry
  refine ⟨(yields_key (hkeys e he)).mono fun k _ hk => ⟨hk, fun _ => trivial⟩, ?_⟩
  exact fun hk hname => hvalues e he _ (leads_of_key hk hname)

/-- Only a text is the key of a field. -/
theorem key_eq_name_iff {c : Content} {name : String} :
    key c = .ok (.name name) ↔ c = .text name := by
  constructor
  · intro h
    cases c with
    | text s =>
      cases h
      rfl
    | integer n =>
      unfold key at h
      dsimp only at h
      split_ifs at h <;> cases h
    | null | boolean _ | floating _ | list _ | map _ => cases h
  · rintro rfl
    rfl

/-- Entries lack a field if no text among their keys is its name. -/
theorem lacking_asEntries_iff {es : List (Content × Content)} {name : String} :
    Lacking (asEntries es) name ↔ ∀ e ∈ es, e.1 ≠ .text name := by
  refine List.forall_mem_map.trans ?_
  simp only [ne_eq, key_eq_name_iff]

/-- The type of a module is what stands under the text of this name. -/
theorem typeOf_asEntries_iff {es : List (Content × Content)} {c : Content} :
    TypeOf (asEntries es) c ↔ (.text "type", c) ∈ es := by
  constructor
  · rintro ⟨_, hentry, hkey, hc⟩
    obtain ⟨⟨k, c'⟩, he, rfl⟩ := List.mem_map.1 hentry
    cases key_eq_name_iff.1 hkey
    cases hc
    exact he
  · intro h
    exact ⟨_, List.mem_map_of_mem h, rfl, rfl⟩

/-- A map of content opens with all that it lacks. -/
theorem opened_asEntries {es : List (Content × Content)} (h : (Content.map es).Covered d role) :
    Opened d role (asEntries es) := by
  cases h with
  | map hkeys hvalues hlacks =>
    refine ⟨inside_asEntries hkeys hvalues, fun h hlacking => ?_⟩
    refine hlacks _ (h.mono fun c _ hc _ => typeOf_asEntries_iff.1 hc) ?_
    exact lacking_asEntries_iff.1 hlacking

theorem known_items {items : List Content} (h : (Content.list items).Covered d role) :
    ∀ i ∈ items, ∀ name, Known d (role.field name) i := by
  cases h with
  | list h => exact fun i hi name => known_iff.2 (h i hi name)

theorem reports_nothing {c : Content} (h : c.Covered d role) : Reports d (nothing c) := by
  unfold nothing
  split
  · trivial
  · trivial
  · exact yields_unexpected h (.ofList (by decide))

theorem yields_word {c : Content} (h : c.Covered d role) :
    Yields d (fun w => (d.quiet → w.1.Silent) ∧ Reports d w.2) (Source.variant c) := by
  dsimp only [Source.variant]
  split
  · rename_i s
    cases h with
    | text h => exact ⟨h, trivial⟩
  · rename_i k v
    cases h with
    | map hkeys hvalues _ =>
      refine (yields_key (hkeys _ List.mem_cons_self)).bind fun key hkey hsilent => ?_
      obtain ⟨name, hname⟩ := key.exists_leads
      exact ⟨hsilent, reports_nothing (hvalues _ List.mem_cons_self name (leads_of_key hkey hname))⟩
  · exact yields_unexpected h (.ofList (by decide))

instance : AccurateSource Content where
  text {d role c} h := by
    cases c
    case text s => trivial
    all_goals exact yields_unexpected h.covered (.ofList (by decide))
  boolean {d role c} h := by
    cases c
    case boolean b => trivial
    all_goals exact yields_unexpected h.covered (.ofList (by decide))
  items {d role c} h := by
    cases c
    case list items => exact known_items h.covered
    all_goals exact yields_unexpected h.covered (.ofList (by decide))
  entries {d role c} h := by
    cases c
    case map es => exact opened_asEntries h.covered
    all_goals exact yields_unexpected h.covered (.ofList (by decide))
  layout {d role c} h := by
    cases c
    case list items => exact known_items h.covered
    case map es => exact opened_asEntries h.covered
    all_goals exact yields_unexpected h.covered (.ofList (by decide))
  variant h := yields_word h.covered
  content h := h.covered
  json {d role c} h := by
    dsimp only [Source.json]
    split
    · trivial
    · rename_i k hk
      exact yields_unexpected (c.covered_of_toJson_error h.covered hk) (.ofList (by decide))
  skip := trivial
  locate _ _ hf := hf

/-- The fields of a record of content are given by the entries of a map. -/
theorem reports_readRecord_map {ρ : Type} {demanded : String → Prop}
    {fields : List (Field Content ρ)} (hfields : Accounted d role demanded fields)
    {es : List (Content × Content)}
    (hkeys : ∀ e ∈ es, e.1.Covered d .free)
    (hvalues : ∀ e ∈ es, ∀ name, e.1.Leads name → e.2.Covered d (role.field name))
    (hlacks : ∀ name, demanded name → (∀ e ∈ es, e.1 ≠ .text name) → d.lacks name)
    (strict : Bool) (start : ρ) : Reports d (readRecord fields strict start (.map es)) := by
  have hentries : Reports d (readEntries fields strict start (asEntries es)) := by
    refine reports_readEntries hfields (inside_asEntries hkeys hvalues) ?_ start
    exact fun name hname hlacking => hlacks name hname (lacking_asEntries_iff.1 hlacking)
  exact Yields.located (s := Content.map es) trivial hentries

end Decoding.ContentPart

end WorkflowEngine
