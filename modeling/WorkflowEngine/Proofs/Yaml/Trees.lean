import WorkflowEngine.Proofs.Decoding.Contents
import WorkflowEngine.Yaml.Part

/-!
# Trees of YAML texts

The parts of a YAML text quote their texts and tags, and the keys that lead to them. Nothing that a
text says is lost when it is taken over: a field that a record lacks as content it lacks as written,
and if it has to have the field as content, it has to have it as written.
-/

namespace WorkflowEngine

open Decoding

variable {d : Facts} {role : Role} {α : Type} {P : α → Prop}

namespace Yaml

/-- No flaw of a text speaks of a missing field. -/
theorem silent_text (flaw : Flaw) : Silent flaw.text := by
  cases flaw
  case moreThanOneDocument => exact .ofList (by decide +kernel)
  all_goals exact .ofList (by decide)

/-! ## Trees -/

namespace Tree

/-- The tag of a tree. -/
def tag? : Tree → Option String
  | .scalar tag _ _ | .sequence tag _ | .mapping tag _ => tag
  | .broken _ | .exceeded _ => none

/-- The text of a scalar. -/
def text? : Tree → Option String
  | .scalar _ _ text => some text
  | _ => none

/-- The entries of a tree that counts as a map. -/
def entries? : Tree → Option (List (Tree × Tree))
  | .mapping _ entries => some entries
  | t => if Part.isVoid t then some [] else none

mutual

/-- The trees of which a tree consists, the tree itself among them. -/
def parts : Tree → List Tree
  | .sequence tag items => .sequence tag items :: partsOfItems items
  | .mapping tag entries => .mapping tag entries :: partsOfEntries entries
  | t => [t]

/-- The trees of which items consist. -/
def partsOfItems : List Tree → List Tree
  | [] => []
  | t :: rest => parts t ++ partsOfItems rest

/-- The trees of which keys and values consist. -/
def partsOfEntries : List (Tree × Tree) → List Tree
  | [] => []
  | (k, v) :: rest => parts k ++ parts v ++ partsOfEntries rest

end

theorem mem_parts_self (t : Tree) : t ∈ t.parts := by
  cases t <;> exact List.mem_cons_self

/-- The parts of an item are parts of the items. -/
theorem parts_subset_partsOfItems {items : List Tree} {t : Tree} (ht : t ∈ items) :
    t.parts ⊆ partsOfItems items := by
  induction items with
  | nil => cases ht
  | cons _ rest ih =>
    rcases List.mem_cons.1 ht with rfl | ht
    · exact List.subset_append_left _ _
    · exact List.subset_append_of_subset_right _ (ih ht)

/-- The parts of a key and of a value are parts of the entries. -/
theorem parts_subset_partsOfEntries {entries : List (Tree × Tree)} {e : Tree × Tree}
    (he : e ∈ entries) :
    e.1.parts ⊆ partsOfEntries entries ∧ e.2.parts ⊆ partsOfEntries entries := by
  induction entries with
  | nil => cases he
  | cons _ rest ih =>
    rcases List.mem_cons.1 he with rfl | he
    · exact ⟨List.subset_append_of_subset_left _ (List.subset_append_left _ _),
        List.subset_append_of_subset_left _ (List.subset_append_right _ _)⟩
    · exact ⟨List.subset_append_of_subset_right _ (ih he).1,
        List.subset_append_of_subset_right _ (ih he).2⟩

/-- Whether no text and no tag in a tree has "missing field " in it. -/
def Quiet (root : Tree) : Prop :=
  ∀ t ∈ root.parts, (∀ s ∈ t.text?, Silent s) ∧ ∀ s ∈ t.tag?, Silent s

instance (root : Tree) : Decidable root.Quiet :=
  inferInstanceAs (Decidable (∀ t ∈ root.parts, _ ∧ _))

/-- What a scalar means. -/
def content? : Tree → Option Content
  | .scalar tag style text => (scalarContent tag style text).toOption
  | _ => none

/-- A scalar means what its text means under its tag and in its style. -/
theorem content?_scalar_iff {tag : Option String} {style : ScalarStyle} {text : String}
    {c : Content} :
    (Tree.scalar tag style text).content? = some c ↔ scalarContent tag style text = .ok c := by
  change (scalarContent tag style text).toOption = some c ↔ _
  cases scalarContent tag style text with
  | ok c' => exact (Option.some_inj.trans (Except.ok.injEq c' c ▸ Iff.rfl))
  | error f => exact iff_of_false nofun nofun

/-- The keys of a map that lead to a field: its name, or a number, that may be that of any field. -/
def Leads (key : Tree) (name : String) : Prop :=
  key.text? = some name ∨ ∃ n, key.content? = some (.integer n)

/-- What may be the type of a module of the given entries. -/
def TypeOf (entries : List (Tree × Tree)) (c : Content) : Prop :=
  ∃ e ∈ entries, e.1.text? = some "type" ∧ e.2.content? = some c

/-- Whether some record in a tree has to have a field and does not have it, by what the tree stands
for. -/
inductive Wants : Role → Tree → String → Prop where
  /-- The tree itself. -/
  | here {role : Role} {t : Tree} {entries : List (Tree × Tree)} {name : String}
    (ht : entries ∈ t.entries?) (h : Demands (TypeOf entries) role name)
    (hlacks : ∀ e ∈ entries, e.1.text? ≠ some name) : Wants role t name
  /-- What stands under a key. -/
  | value {role : Role} {tag : Option String} {entries : List (Tree × Tree)} {e : Tree × Tree}
    {key name : String} (he : e ∈ entries) (hkey : e.1.Leads key)
    (h : Wants (role.field key) e.2 name) : Wants role (.mapping tag entries) name
  /-- An item of a list, or a field of a record that gives its fields in their order. -/
  | item {role : Role} {tag : Option String} {items : List Tree} {t : Tree} {key name : String}
    (ht : t ∈ items) (h : Wants (role.field key) t name) : Wants role (.sequence tag items) name

/-- What a tree wants is among the names that are required anywhere. -/
theorem Wants.mem_requiredNames {t : Tree} {name : String} (h : Wants role t name) :
    name ∈ requiredNames := by
  induction h with
  | here _ h _ => exact h.mem_requiredNames
  | value _ _ _ ih | item _ _ ih => exact ih

/-- Where nothing has to stand nothing is wanted. -/
theorem not_wants_free {t : Tree} {name : String} : ¬ Wants .free t name := by
  intro h
  generalize hrole : Role.free = role at h
  induction h with
  | here _ h _ =>
    subst hrole
    cases h with
    | always h => cases h
  | value _ _ _ ih | item _ _ ih => exact ih (hrole ▸ rfl)

/-- What a document is like. -/
def facts (root : Tree) : Facts := ⟨root.Quiet, root.Wants .document⟩

/-- Whether a tree that stands for something is of a document: its texts are silent if the document
is quiet, and what it wants the document lacks. -/
structure Covered (d : Facts) (role : Role) (t : Tree) : Prop where
  /-- Its texts. -/
  texts (h : d.quiet) : t.Quiet
  /-- Its records. -/
  lacks {name : String} (h : t.Wants role name) : d.lacks name

/-- A document is like itself. -/
theorem covered_facts (root : Tree) : root.Covered root.facts .document := ⟨id, id⟩

namespace Covered

variable {s t : Tree}

/-- A part of a tree of the document is of the document where nothing has to stand. -/
theorem free_of_parts_subset (h : s.Covered d role) (ht : t.parts ⊆ s.parts) :
    t.Covered d .free where
  texts hquiet r hr := h.texts hquiet r (ht hr)
  lacks hwants := absurd hwants not_wants_free

/-- The items of a list stand for what the field of the list stands for. -/
theorem item {tag : Option String} {items : List Tree}
    (h : (Tree.sequence tag items).Covered d role) :
    ∀ t ∈ items, ∀ key, t.Covered d (role.field key) := by
  intro t ht key
  refine ⟨?_, fun hwants => h.lacks (.item ht hwants)⟩
  exact (h.free_of_parts_subset
    (List.subset_cons_of_subset _ (parts_subset_partsOfItems ht))).texts

section

variable {tag : Option String} {entries : List (Tree × Tree)}

theorem key_free (h : (Tree.mapping tag entries).Covered d role) :
    ∀ e ∈ entries, e.1.Covered d .free :=
  fun _ he => h.free_of_parts_subset
    (List.subset_cons_of_subset _ (parts_subset_partsOfEntries he).1)

theorem value_free (h : (Tree.mapping tag entries).Covered d role) :
    ∀ e ∈ entries, e.2.Covered d .free :=
  fun _ he => h.free_of_parts_subset
    (List.subset_cons_of_subset _ (parts_subset_partsOfEntries he).2)

/-- A value stands for what its key says. -/
theorem value (h : (Tree.mapping tag entries).Covered d role) :
    ∀ e ∈ entries, ∀ key, e.1.Leads key → e.2.Covered d (role.field key) :=
  fun e he _ hkey => ⟨(h.value_free e he).texts, fun hwants => h.lacks (.value he hkey hwants)⟩

end

/-- The text of a tree is silent in a quiet document. -/
theorem silent_text (h : t.Covered d role) (hquiet : d.quiet) : ∀ s ∈ t.text?, Silent s :=
  (h.texts hquiet t t.mem_parts_self).1

theorem silent_tag (h : t.Covered d role) (hquiet : d.quiet) : ∀ s ∈ t.tag?, Silent s :=
  (h.texts hquiet t t.mem_parts_self).2

end Covered

end Tree

/-! ## What scalars mean -/

/-- The variant that a silent tag names is silent. -/
theorem silent_of_variantOfTag {tag : Option String} (h : ∀ s ∈ tag, Silent s) {name : String}
    (hname : variantOfTag tag = some name) : Silent name := by
  cases tag with
  | none => cases hname
  | some t =>
    unfold variantOfTag at hname
    rw [Option.map_some] at hname
    split at hname
    · cases hname
      decide
    · rename_i rest ht
      cases hname
      intro hrest
      rw [String.toList_ofList] at hrest
      refine h t rfl ?_
      rw [Option.some.inj ht]
      exact List.infix_cons hrest
    · cases hname

/-- What a scalar may mean: no more than its text, or something that has no text. A failure is not
about a missing field, and quotes no more than the text. -/
def Means (s : String) : Except Failure Content → Prop
  | .ok c => c.depth = 0 ∧ ∀ t, c = .text t → t = s
  | .error f => f.place = none ∧ (∀ name, f.fault ≠ .missingField name) ∧
    (Silent s → Silent f.fault.message)

theorem means_fault {s : String} {f : Fault} (h : Silent s → Silent f.message)
    (hf : ∀ name, f ≠ .missingField name := by rintro _ ⟨⟩) : Means s (fault f) :=
  ⟨rfl, hf, h⟩

theorem means_text (s : String) : Means s (.ok (.text s)) := by
  refine ⟨rfl, fun t ht => ?_⟩
  cases ht
  rfl

/-- An integer has no text. -/
theorem means_of_integerContent? {cs : List Char} {r : Except Failure Content}
    (h : integerContent? cs = some r) (s : String) : Means s r := by
  obtain ⟨n, _, h⟩ := Option.bind_eq_some_iff.1 h
  split_ifs at h
  · cases h
    exact ⟨rfl, nofun⟩
  · cases h
    exact means_fault fun _ => by decide

theorem means_notAsTagged {s expected : String} (h : Silent expected) :
    Means s (notAsTagged s expected) :=
  means_fault fun hs => Fault.silent_invalidValue (silent_describeText hs) h

theorem means_plainContent (s : String) : Means s (plainContent s) := by
  unfold plainContent
  dsimp only
  split
  · exact ⟨rfl, nofun⟩
  · split
    · exact ⟨rfl, nofun⟩
    · split
      · rename_i r hr
        exact means_of_integerContent? hr s
      · split
        · exact ⟨rfl, nofun⟩
        · exact means_text s

/-- A scalar of any tag and style. -/
theorem means_scalarContent (tag : Option String) (style : ScalarStyle) (s : String) :
    Means s (scalarContent tag style s) := by
  unfold scalarContent
  split
  · split_ifs
    · exact means_plainContent s
    · exact means_text s
  · split_ifs
    · exact means_fault fun _ => by decide
    · split
      · exact ⟨rfl, nofun⟩
      · exact means_notAsTagged (by decide)
    · split
      · rename_i r hr
        exact means_of_integerContent? hr s
      · exact means_notAsTagged (by decide)
    · split
      · exact ⟨rfl, nofun⟩
      · exact means_notAsTagged (by decide)
    · exact ⟨rfl, nofun⟩
    · exact means_notAsTagged (by decide)
    · exact means_text s

/-- What a scalar of the document means is of the document. -/
theorem covered_of_means {s : String} {c : Content} (h : Means s (.ok c))
    (hs : d.quiet → Silent s) : c.Covered d role := by
  obtain ⟨hdepth, htext⟩ := h
  cases c with
  | text t => exact .text (htext t rfl ▸ hs)
  | null => exact .null
  | boolean b => exact .boolean b
  | integer n => exact .integer n
  | floating x => exact .floating x
  | list _ | map _ => cases hdepth

/-- The name of a field that has to be given is a text, however it is written. -/
theorem eq_text_of_scalarContent {tag : Option String} {style : ScalarStyle} {name : String}
    (hname : name ∈ requiredNames) {c : Content} (h : scalarContent tag style name = .ok c) :
    c = .text name := by
  have hwords : ∀ name ∈ requiredNames, isNull name = false ∧ truth? name = none ∧
      (integer? name.toList).isNone ∧ (floating? name.toList).isNone := by decide
  obtain ⟨hnull, htruth, hinteger, hfloating⟩ := hwords name hname
  rw [Option.isNone_iff_eq_none] at hinteger hfloating
  have hnone : integerContent? name.toList = none := by
    rw [integerContent?, hinteger, Option.bind_none]
  have hplain : plainContent name = .ok (.text name) := by
    simp only [plainContent, hnull, htruth, hnone, hfloating, ite_self, Bool.false_eq_true,
      if_false]
  unfold scalarContent at h
  simp only [hplain, htruth, hnone, hfloating, hnull, Bool.false_eq_true, and_false, if_false,
    notAsTagged] at h
  split at h
  · split_ifs at h <;> cases h <;> rfl
  · split_ifs at h <;> cases h
    rfl

/-- Where a tree means a text, this is the text of the tree. -/
theorem text?_of_content? {t : Tree} {s : String} (h : t.content? = some (.text s)) :
    t.text? = some s := by
  cases t with
  | scalar tag style text =>
    have hmeans := means_scalarContent tag style text
    rw [Tree.content?_scalar_iff.1 h] at hmeans
    exact congrArg some (hmeans.2 s rfl).symm
  | sequence _ _ | mapping _ _ | broken _ | exceeded _ => cases h

/-! ## Places -/

/-- A place in a list is silent if that of the list is. -/
theorem silent_underIndex {place : String} (h : Silent place) (i : Nat) :
    Silent (Part.underIndex place i) := by
  have hu : separates ("[" ++ i.repr ++ "]") = true := by
    rw [separates, Bool.and_eq_true, decide_eq_true_eq, String.toList_append, String.toList_append]
    refine ⟨rfl, List.not_mem_append (List.not_mem_append (by decide) (notMem_repr i)) (by decide)⟩
  have hplace := h.append_right hu
  rwa [← String.append_assoc, ← String.append_assoc] at hplace

/-- A place in a map is silent if that of the map and the key are. -/
theorem silent_underKey {place : String} (h : Silent place) {key : Tree}
    (hkey : ∀ s ∈ key.text?, Silent s) : Silent (Part.underKey place key) := by
  have hbefore {s : String} (hs : Silent s) :
      Silent ((if place = "." then "" else place ++ ".") ++ s) := by
    split_ifs
    · rwa [String.empty_append]
    · exact h.between (by decide) hs
  cases key with
  | scalar tag style text => exact hbefore (hkey text rfl)
  | sequence _ _ | mapping _ _ | broken _ | exceeded _ => exact hbefore (by decide)

/-- Where a failure is placed does not matter to its fault. -/
theorem fault_placedAt (place : String) (f : Failure) : (f.placedAt place).fault = f.fault := by
  unfold Failure.placedAt
  split <;> rfl

theorem eq_or_mem_of_placedAt {place : String} {f : Failure} {p : String}
    (h : p ∈ (f.placedAt place).place) : p = place ∨ p ∈ f.place := by
  unfold Failure.placedAt at h
  split at h
  · exact .inr h
  · cases h
    exact .inl rfl
  · exact .inr h

/-- A failure stays accurate when it is placed by silent keys. -/
theorem accurate_placedAt {place : String} (h : Silent place) {f : Failure} (hf : f.Accurate d) :
    (f.placedAt place).Accurate d := by
  have hplace (hsilent : ∀ p ∈ f.place, Silent p) : ∀ p ∈ (f.placedAt place).place, Silent p := by
    intro p hp
    rcases eq_or_mem_of_placedAt hp with rfl | hp
    · exact h
    · exact hsilent p hp
  constructor
  · intro name hmissing
    rw [fault_placedAt] at hmissing
    obtain ⟨hlacks, hsilent⟩ := hf.missing hmissing
    exact ⟨hlacks, hplace hsilent⟩
  · intro hother hquiet
    rw [fault_placedAt] at hother ⊢
    obtain ⟨hsilent, hmessage⟩ := hf.other hother hquiet
    exact ⟨hplace hsilent, hmessage⟩

/-! ## Parts -/

namespace Part

theorem silent_describe {p : Part} (h : ∀ s ∈ p.tree.text?, Silent s) : Silent p.describe := by
  unfold describe
  split
  · rename_i tag style text htree
    have htext : Silent text := by
      rw [htree] at h
      exact h text rfl
    have hmeans := means_scalarContent tag style text
    split
    · rename_i c hc
      rw [hc] at hmeans
      exact Decoding.silent_describe fun t ht => hmeans.2 t ht ▸ htext
    · exact silent_describeText htext
  all_goals decide

theorem yields_unreadable (flaw : Flaw) : Yields d P (fault (.unreadable flaw.text)) :=
  .fault fun _ => silent_text flaw

/-- A part of another kind than expected is quoted. -/
theorem yields_unexpected {p : Part} (hplace : d.quiet → Silent p.place)
    (h : p.tree.Covered d role) {expected : String} (he : Silent expected) :
    Yields d P (p.unexpected expected) := by
  unfold unexpected
  split
  · exact yields_unreadable _
  · exact yields_unreadable _
  · refine .error fun hquiet => ⟨?_, ?_⟩
    · rintro _ ⟨⟩
      exact hplace hquiet
    · exact Fault.silent_invalidType (silent_describe (h.silent_text hquiet)) he

/-- A variant that is no text is reported. -/
theorem yields_variantTag {place : String} (h : d.quiet → Silent place) :
    Yields d P (variantTag place : Except Failure α) := by
  refine .error fun hquiet => ⟨?_, Fault.silent_invalidType (by decide) (by decide)⟩
  rintro _ ⟨⟩
  exact h hquiet

theorem yields_scalar {place : String} (hplace : d.quiet → Silent place) {tag : Option String}
    {style : ScalarStyle} {text : String} (htext : d.quiet → Silent text) :
    Yields d (Content.Covered d role)
      ((scalarContent tag style text).mapError (Failure.placedAt place)) := by
  have hmeans := means_scalarContent tag style text
  cases hc : scalarContent tag style text with
  | ok c =>
    rw [hc] at hmeans
    exact covered_of_means hmeans htext
  | error f =>
    rw [hc] at hmeans
    obtain ⟨hnone, hother, hsilent⟩ := hmeans
    refine .error (fun hquiet => ⟨?_, ?_⟩) ?_
    · intro p hp
      rcases eq_or_mem_of_placedAt hp with rfl | hp
      · exact hplace hquiet
      · rw [hnone] at hp
        cases hp
    · rw [fault_placedAt]
      exact hsilent (htext hquiet)
    · rw [fault_placedAt]
      exact hother

/-- A key that is the name of a field that has to be given is taken over as this name. -/
theorem eq_text_of_toContent {place : String} {t : Tree} {name : String}
    (hname : name ∈ requiredNames) (ht : t.text? = some name) {c : Content}
    (h : toContent place t = .ok c) : c = .text name := by
  cases t with
  | scalar tag style text =>
    cases ht
    exact eq_text_of_scalarContent hname (mapError_eq_ok_iff.1 h)
  | sequence _ _ | mapping _ _ | broken _ | exceeded _ => cases ht

/-- What is taken over without any nesting is what the tree means. -/
theorem content?_of_toContent {place : String} {t : Tree} {c : Content}
    (h : toContent place t = .ok c) (hc : c.depth = 0) : t.content? = some c := by
  cases t with
  | scalar tag style text => exact Tree.content?_scalar_iff.2 (mapError_eq_ok_iff.1 h)
  | sequence tag items =>
    unfold toContent at h
    split_ifs at h
    · cases h
    · obtain ⟨cs, _, rfl⟩ := map_eq_ok_iff.1 h
      cases hc
  | mapping tag entries =>
    unfold toContent at h
    split_ifs at h
    · cases h
    · obtain ⟨es, _, rfl⟩ := map_eq_ok_iff.1 h
      cases hc
  | broken _ | exceeded _ => cases h

/-- Where a key leads as content, it leads as written. -/
theorem leads_of_toContent {place : String} {t : Tree} {c : Content} (h : toContent place t = .ok c)
    {name : String} (hname : c.Leads name) : t.Leads name := by
  rcases hname with rfl | ⟨n, rfl⟩
  · exact .inl (text?_of_content? (content?_of_toContent h rfl))
  · exact .inr ⟨n, content?_of_toContent h rfl⟩

/-- An entry that is taken over. -/
def TakenOver (e : Tree × Tree) (e' : Content × Content) : Prop :=
  (∃ place, toContent place e.1 = .ok e'.1) ∧ ∃ place, toContent place e.2 = .ok e'.2

/-- Entries are taken over one by one. -/
theorem takenOver_of_toContentEntries {place : String} {entries : List (Tree × Tree)}
    {es : List (Content × Content)} (h : toContentEntries place entries = .ok es) :
    List.Forall₂ TakenOver entries es := by
  induction entries generalizing es with
  | nil =>
    cases h
    exact .nil
  | cons e rest ih =>
    obtain ⟨k, v⟩ := e
    unfold toContentEntries at h
    obtain ⟨key, hkey, h⟩ := bind_eq_ok_iff.1 h
    obtain ⟨value, hvalue, h⟩ := bind_eq_ok_iff.1 h
    obtain ⟨es, hes, h⟩ := bind_eq_ok_iff.1 h
    cases h
    exact .cons ⟨⟨_, hkey⟩, ⟨_, hvalue⟩⟩ (ih hes)

section

variable {entries : List (Tree × Tree)} {es : List (Content × Content)}

/-- An entry that has to be given is not lost. -/
theorem lacking_of_takenOver (h : List.Forall₂ TakenOver entries es) {name : String}
    (hname : name ∈ requiredNames) (hes : ∀ e ∈ es, e.1 ≠ .text name) :
    ∀ e ∈ entries, e.1.text? ≠ some name := by
  induction h with
  | nil => exact nofun
  | cons he _ ih =>
    obtain ⟨hne, hes⟩ := List.forall_mem_cons.1 hes
    obtain ⟨⟨_, hkey⟩, _⟩ := he
    exact List.forall_mem_cons.2
      ⟨fun htext => hne (eq_text_of_toContent hname htext hkey), ih hes⟩

/-- What a module is by its content, it is as written. -/
theorem typeOf_of_takenOver (h : List.Forall₂ TakenOver entries es) {c : Content} {tag : KindTag}
    (hc : (.text "type", c) ∈ es) (htag : Kind.readTag c = .ok tag) : Tree.TypeOf entries c := by
  induction h with
  | nil => cases hc
  | @cons e _ _ _ he _ ih =>
    rcases List.mem_cons.1 hc with rfl | hc
    · obtain ⟨⟨_, hkey⟩, _, hvalue⟩ := he
      have hdepth : c.depth = 0 := Kind.depth_of_readTag htag
      exact ⟨e, List.mem_cons_self, text?_of_content? (content?_of_toContent hkey rfl),
        content?_of_toContent hvalue hdepth⟩
    · obtain ⟨e, he, htype⟩ := ih hc
      exact ⟨e, List.mem_cons_of_mem _ he, htype⟩

end

mutual

/-- What is taken over of a document is of the document. -/
theorem yields_toContent : (t : Tree) → {role : Role} → t.Covered d role → {place : String} →
    (d.quiet → Silent place) → Yields d (Content.Covered d role) (toContent place t)
  | .scalar tag style text, _, h, _, hplace =>
    yields_scalar hplace fun hquiet => h.silent_text hquiet text rfl
  | .sequence tag items, _, h, place, hplace => by
    unfold toContent
    split_ifs
    · exact yields_variantTag hplace
    · exact .map ((yields_toContents items h.item hplace 0).mono fun cs _ hcs => .list hcs)
  | .mapping tag entries, _, h, place, hplace => by
    unfold toContent
    split_ifs
    · exact yields_variantTag hplace
    · refine .map ((yields_toContentEntries entries h.key_free h.value_free h.value hplace).mono
        fun es hes hcovered => .map hcovered.1 hcovered.2 fun name hname hlacking => ?_)
      have htaken := takenOver_of_toContentEntries hes
      refine h.lacks (.here rfl (hname.mono fun c tag => typeOf_of_takenOver htaken) ?_)
      exact lacking_of_takenOver htaken hname.mem_requiredNames hlacking
  | .broken flaw, _, _, _, _ => yields_unreadable flaw
  | .exceeded flaw, _, _, _, _ => yields_unreadable flaw

theorem yields_toContents : (items : List Tree) → {role : Role} →
    (∀ t ∈ items, ∀ key, t.Covered d (role.field key)) → {place : String} →
    (d.quiet → Silent place) → (i : Nat) →
    Yields d (fun cs => ∀ c ∈ cs, ∀ key, c.Covered d (role.field key)) (toContents place i items)
  | [], _, _, _, _, _ => fun _ h => nomatch h
  | t :: rest, role, h, place, hplace, i => by
    obtain ⟨ht, hrest⟩ := List.forall_mem_cons.1 h
    have hitem (key : String) :
        Yields d (Content.Covered d (role.field key)) (toContent (underIndex place i) t) :=
      yields_toContent t (ht key) fun hquiet => silent_underIndex (hplace hquiet) i
    refine (Yields.all (hitem "").reports hitem).bind fun c _ hc => ?_
    refine (yields_toContents rest hrest hplace (i + 1)).bind fun cs _ hcs => ?_
    exact List.forall_mem_cons.2 ⟨hc, hcs⟩

/-- The entries of a map are taken over with the keys of their places. -/
theorem yields_toContentEntries : (entries : List (Tree × Tree)) → {role : Role} →
    (∀ e ∈ entries, e.1.Covered d .free) → (∀ e ∈ entries, e.2.Covered d .free) →
    (∀ e ∈ entries, ∀ name, e.1.Leads name → e.2.Covered d (role.field name)) → {place : String} →
    (d.quiet → Silent place) →
    Yields d (fun es => (∀ e ∈ es, e.1.Covered d .free) ∧
      ∀ e ∈ es, ∀ name, e.1.Leads name → e.2.Covered d (role.field name))
      (toContentEntries place entries)
  | [], _, _, _, _, _, _ => ⟨nofun, nofun⟩
  | (k, v) :: rest, role, hkeys, hfree, hvalues, place, hplace => by
    obtain ⟨hk, hkeys⟩ := List.forall_mem_cons.1 hkeys
    obtain ⟨hv, hfree⟩ := List.forall_mem_cons.1 hfree
    obtain ⟨hled, hvalues⟩ := List.forall_mem_cons.1 hvalues
    have hunder (hquiet : d.quiet) : Silent (underKey place k) :=
      silent_underKey (hplace hquiet) (hk.silent_text hquiet)
    have hvalue := (yields_toContent v hv hunder).reports
    refine (yields_toContent k hk hplace).bind fun key hkey hcovered => ?_
    refine (Yields.all hvalue fun name => Yields.all hvalue fun hname : key.Leads name =>
      yields_toContent v (hled name (leads_of_toContent hkey hname)) hunder).bind fun c _ hc => ?_
    refine (yields_toContentEntries rest hkeys hfree hvalues hplace).bind fun es _ hes => ?_
    exact ⟨List.forall_mem_cons.2 ⟨hcovered, hes.1⟩, List.forall_mem_cons.2 ⟨hc, hes.2⟩⟩

end

mutual

/-- What is passed over is read all the same, and reported where it cannot be. -/
theorem reports_passOver : (t : Tree) → Reports d (passOver t)
  | .broken flaw => yields_unreadable flaw
  | .sequence _ items => reports_passOverItems items
  | .mapping _ entries => reports_passOverEntries entries
  | .scalar _ _ _ | .exceeded _ => trivial

theorem reports_passOverItems : (items : List Tree) → Reports d (passOverItems items)
  | [] => trivial
  | t :: rest => (reports_passOver t).bind fun _ _ _ => reports_passOverItems rest

theorem reports_passOverEntries : (entries : List (Tree × Tree)) →
    Reports d (passOverEntries entries)
  | [] => trivial
  | (k, v) :: rest => (reports_passOver k).bind fun _ _ _ =>
    (reports_passOver v).bind fun _ _ _ => reports_passOverEntries rest

end

instance : Surveyed Part where
  Placed p := Silent p.place
  Covered d role p := p.tree.Covered d role

theorem known_items {place : String} (hplace : Silent place) {items : List Tree}
    (h : ∀ t ∈ items, ∀ key, t.Covered d (role.field key)) :
    ∀ p ∈ asItems place items, ∀ key, Known d (role.field key) p := by
  intro p hp key
  obtain ⟨⟨t, i⟩, ht, rfl⟩ := List.mem_map.1 hp
  exact ⟨silent_underIndex hplace i, h t (List.fst_mem_of_mem_zipIdx ht) key⟩

/-- Where an entry leads, its key leads as written. -/
theorem leads_of_asKey {place : String} {t : Tree} {key : Key} (h : asKey place t = .ok key)
    {name : String} (hname : key.Leads name) : t.Leads name := by
  cases t with
  | scalar tag style text =>
    cases h
    rcases hname with h | ⟨n, h⟩
    · cases h
      exact .inl rfl
    · cases h
  | sequence _ _ | mapping _ _ | broken _ | exceeded _ => cases h

/-- The entries of a map are inside the document. -/
theorem inside_asEntries {place : String} (hplace : Silent place) {entries : List (Tree × Tree)}
    (hkeys : ∀ e ∈ entries, e.1.Covered d .free)
    (hvalues : ∀ e ∈ entries, ∀ name, e.1.Leads name → e.2.Covered d (role.field name)) :
    ∀ e ∈ asEntries place entries, Inside d role e := by
  intro _ hentry
  obtain ⟨⟨k, v⟩, he, rfl⟩ := List.mem_map.1 hentry
  refine ⟨?_, fun hkey hname => hvalues _ he _ (leads_of_asKey hkey hname)⟩
  have hk := hkeys _ he
  cases k with
  | scalar tag style text =>
    refine ⟨fun hquiet => hk.silent_text hquiet text rfl, fun htext => silent_underKey hplace ?_⟩
    rintro _ ⟨⟩
    exact htext
  | sequence _ _ | mapping _ _ | broken _ | exceeded _ =>
    have hfield : Silent "a field" := by decide
    exact yields_unexpected (p := ⟨place, _⟩) (fun _ => hplace) hk hfield

section

variable {place : String} {entries : List (Tree × Tree)}

/-- A key is a name exactly if it has the text of this name. -/
theorem asKey_eq_name_iff {t : Tree} {name : String} :
    asKey place t = .ok (.name name) ↔ t.text? = some name := by
  cases t with
  | scalar tag style text =>
    constructor
    · rintro ⟨⟩
      rfl
    · rintro ⟨⟩
      rfl
  | sequence _ _ | mapping _ _ | broken _ | exceeded _ => exact iff_of_false nofun nofun

/-- Entries lack a field exactly if no key has its name. -/
theorem lacking_asEntries_iff {name : String} :
    Lacking (asEntries place entries) name ↔ ∀ e ∈ entries, e.1.text? ≠ some name := by
  refine List.forall_mem_map.trans ?_
  simp only [ne_eq, asKey_eq_name_iff]

/-- What a module may be by its entries, it may be as written. -/
theorem typeOf_of_asEntries {c : Content} {tag : KindTag}
    (h : Decoding.TypeOf (asEntries place entries) c) (htag : Kind.readTag c = .ok tag) :
    Tree.TypeOf entries c := by
  obtain ⟨_, hentry, hkey, hc⟩ := h
  obtain ⟨e, he, rfl⟩ := List.mem_map.1 hentry
  exact ⟨e, he, asKey_eq_name_iff.1 hkey, content?_of_toContent hc (Kind.depth_of_readTag htag)⟩

end

/-- What is known of a map is known of its entries. -/
theorem yields_entriesOf {p : Part} (h : Known d role p) {expected : String}
    (he : Silent expected) : Yields d (Opened d role) (p.entriesOf expected) := by
  obtain ⟨hplace, htree⟩ := h
  obtain ⟨place, tree⟩ := p
  cases tree with
  | mapping tag entries =>
    refine ⟨inside_asEntries hplace htree.key_free htree.value, fun hname hlacking => ?_⟩
    exact htree.lacks (.here rfl (hname.mono fun _ _ => typeOf_of_asEntries)
      (lacking_asEntries_iff.1 hlacking))
  | scalar tag style text =>
    unfold entriesOf
    dsimp only
    split_ifs with hvoid
    · refine ⟨nofun, fun hname _ => htree.lacks (.here (if_pos hvoid) (hname.mono ?_) nofun)⟩
      rintro _ _ ⟨_, hentry, _⟩
      cases hentry
    · exact yields_unexpected (fun _ => hplace) htree he
  | sequence _ _ | broken _ | exceeded _ => exact yields_unexpected (fun _ => hplace) htree he

theorem reports_nothing {p : Part} (h : Seen d role p) : Reports d p.nothing := by
  have hnothing : Reports d (p.unexpected "nothing" : Except Failure Unit) :=
    yields_unexpected h.placed h.covered (by decide)
  unfold nothing
  split
  · split_ifs
    · trivial
    · exact hnothing
  · exact hnothing

theorem yields_word {p : Part} (h : Seen d role p) :
    Yields d (fun w => (d.quiet → w.1.Silent) ∧ Reports d w.2) p.word := by
  have hnothing := reports_nothing h
  have hplace := h.placed
  have htree : p.tree.Covered d role := h.covered
  have hword : Silent "a word" := by decide
  obtain ⟨place, tree⟩ := p
  cases tree with
  | scalar tag style text =>
    unfold word
    dsimp only
    split
    · rename_i name hname
      exact ⟨fun hquiet => silent_of_variantOfTag (htree.silent_tag hquiet) hname, hnothing⟩
    · exact ⟨fun hquiet => htree.silent_text hquiet text rfl, trivial⟩
  | sequence tag _ | mapping tag _ =>
    unfold word
    dsimp only
    split
    · rename_i name hname
      exact ⟨fun hquiet => silent_of_variantOfTag (htree.silent_tag hquiet) hname, hnothing⟩
    · exact yields_unexpected hplace htree hword
  | broken _ | exceeded _ => exact yields_unexpected hplace htree hword

instance : AccurateSource Part where
  text {d role p} h := by
    obtain ⟨place, tree⟩ := p
    cases tree
    case scalar tag style text => trivial
    all_goals exact yields_unexpected h.placed h.covered (by decide)
  boolean {d role p} h := by
    have hboolean : Reports d (p.unexpected "a boolean" : Except Failure Bool) :=
      yields_unexpected h.placed h.covered (by decide)
    dsimp only [Source.boolean]
    split
    · split
      · split_ifs
        · trivial
        · exact hboolean
      · exact hboolean
    · exact hboolean
  items {d role p} h := by
    have hlist : Silent "a sequence" := by decide
    obtain ⟨hplace, htree⟩ := h
    obtain ⟨place, tree⟩ := p
    cases tree
    case sequence tag items => exact known_items hplace htree.item
    case scalar tag style text =>
      dsimp only [Source.items]
      split_ifs
      · exact fun _ hp => nomatch hp
      · exact yields_unexpected (fun _ => hplace) htree hlist
    all_goals exact yields_unexpected (fun _ => hplace) htree hlist
  entries h := yields_entriesOf h (by decide)
  layout h := .map (yields_entriesOf h (by decide))
  variant h := yields_word h
  content h := yields_toContent _ h.covered h.placed
  json h := (yields_toContent _ h.covered h.placed).bind fun c _ hc =>
    AccurateSource.json (ContentPart.seen_iff.2 hc)
  skip := reports_passOver _
  locate h _ hf := accurate_placedAt h hf

end Part

end Yaml

end WorkflowEngine
