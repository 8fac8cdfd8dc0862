import WorkflowEngine.Proofs.Decoding.Demands
import WorkflowEngine.Proofs.Decoding.Messages
import WorkflowEngine.Proofs.Decoding.Outcomes

/-!
# Causes of failures

A failure that names a missing field is about a field that some record of the document has to have
and does not; every other failure quotes texts of the document at most, and is silent if those are.
This is carried through decoding: a part of a document is known by what it stands for there, and a
decoder that is given such a part fails accurately if it fails.

The keys that lead to a part are quoted with it. Where a part is decoded, they are names of fields;
a part that is no more than taken over may stand under any key.
-/

namespace WorkflowEngine

open Decoding

namespace Decoding

/-- What a document is like, as far as its failures show it. -/
structure Facts where
  /-- Whether none of its texts has "missing field " in it. -/
  quiet : Prop
  /-- Whether some record of it does not have a field that it has to have. -/
  lacks : String → Prop

/-- A failure that says of a document what it is like. -/
structure Failure.Accurate (d : Facts) (f : Failure) : Prop where
  /-- A field that is missing is lacking; the place does not hide that. -/
  missing {name : String} (h : f.fault = .missingField name) :
    d.lacks name ∧ ∀ place ∈ f.place, Silent place
  /-- Where nothing is missing only a text of the document can say so. -/
  other (h : ∀ name, f.fault ≠ .missingField name) (hquiet : d.quiet) :
    (∀ place ∈ f.place, Silent place) ∧ Silent f.fault.message

/-- A computation that has a result of some kind or fails accurately. -/
def Yields {α : Type} (d : Facts) (P : α → Prop) : Except Failure α → Prop
  | .ok a => P a
  | .error f => f.Accurate d

/-- A computation that fails accurately if it fails. -/
abbrev Reports {α : Type} (d : Facts) (x : Except Failure α) : Prop := Yields d (fun _ => True) x

variable {d : Facts} {α β : Type} {P : α → Prop} {Q : β → Prop}

namespace Yields

theorem mono {P' : α → Prop} {x : Except Failure α} (h : Yields d P x)
    (hP : ∀ a, x = .ok a → P a → P' a) : Yields d P' x := by
  cases x with
  | error f => exact h
  | ok a => exact hP a rfl h

theorem reports {x : Except Failure α} (h : Yields d P x) : Reports d x :=
  h.mono fun _ _ _ => trivial

/-- All that is known of a result. -/
theorem all {ι : Sort*} {R : ι → α → Prop} {x : Except Failure α} (hx : Reports d x)
    (h : ∀ i, Yields d (R i) x) : Yields d (fun a => ∀ i, R i a) x := by
  cases x with
  | error f => exact hx
  | ok a => exact h

theorem bind {x : Except Failure α} {f : α → Except Failure β} (hx : Yields d P x)
    (hf : ∀ a, x = .ok a → P a → Yields d Q (f a)) : Yields d Q (x >>= f) := by
  cases x with
  | error e => exact hx
  | ok a => exact hf a rfl hx

theorem map {x : Except Failure α} {g : α → β} (h : Yields d (fun a => Q (g a)) x) :
    Yields d Q (g <$> x) := by
  cases x with
  | error e => exact h
  | ok a => exact h

theorem mapM {read : α → Except Failure β} {items : List α}
    (h : ∀ a ∈ items, Yields d Q (read a)) :
    Yields d (fun bs => ∀ b ∈ bs, Q b) (items.mapM read) := by
  induction items with
  | nil => exact fun b hb => nomatch hb
  | cons a rest ih =>
    rw [List.mapM_cons]
    refine (h a List.mem_cons_self).bind fun b _ hb => ?_
    refine (ih fun a ha => h a (List.mem_cons_of_mem _ ha)).bind fun bs _ hbs => ?_
    exact List.forall_mem_cons.2 ⟨hb, hbs⟩

/-- A failure that names no missing field is accurate if it quotes what is silent in a quiet
document. -/
theorem error {f : Failure} (h : d.quiet → (∀ p ∈ f.place, Silent p) ∧ Silent f.fault.message)
    (hf : ∀ name, f.fault ≠ .missingField name := by rintro _ ⟨⟩) : Yields d P (.error f) where
  missing hmissing := absurd hmissing (hf _)
  other _ := h

/-- A fault that is not about a missing field. -/
theorem fault {f : Fault} (h : d.quiet → Silent f.message)
    (hf : ∀ name, f ≠ .missingField name := by rintro _ ⟨⟩) : Yields d P (fault f) :=
  error (fun hquiet => ⟨nofun, h hquiet⟩) hf

/-- A failure that names a missing field is accurate if the document lacks it. -/
theorem missing {name : String} (h : d.lacks name) :
    Yields d P (Decoding.fault (.missingField name)) where
  missing hmissing := by
    cases hmissing
    exact ⟨h, nofun⟩
  other hother := absurd rfl (hother name)

end Yields

/-- A part that is decoded and then made into something. -/
theorem Reports.assign {x : Except Failure α} (h : Reports d x) (g : α → β) :
    Reports d (x >>= fun a => pure (g a)) :=
  Yields.bind h fun _ _ _ => trivial

/-! ## Parts of a document -/

/-- Languages of documents, with what is known of their parts. -/
class Surveyed (σ : Type) where
  /-- Whether the keys that lead to a part are silent. -/
  Placed : σ → Prop
  /-- Whether a part that stands for something is of a document: its texts are silent if the
  document is quiet, and what its records do not have and have to have the document lacks. -/
  Covered : Facts → Role → σ → Prop

/-- Whether entries have no field of a name. -/
def Lacking {σ : Type} (es : Entries σ) (name : String) : Prop := ∀ e ∈ es, e.1 ≠ .ok (.name name)

/-- Entries lack a field if none of them is of its name. -/
theorem lacking_cons_iff {σ : Type} {e : Except Failure Key × σ} {es : Entries σ} {name : String} :
    Lacking (e :: es) name ↔ e.1 ≠ .ok (.name name) ∧ Lacking es name :=
  List.forall_mem_cons

/-- Whether the name of a field is silent. -/
def Key.Silent : Key → Prop
  | .name s => Decoding.Silent s
  | .index _ => True

section

variable {σ : Type} [Surveyed σ] {role : Role}

open Surveyed

/-- A part of a document that is taken over. -/
structure Seen (d : Facts) (role : Role) (s : σ) : Prop where
  /-- The keys that lead to it are texts of the document. -/
  placed (hquiet : d.quiet) : Placed s
  /-- It is of the document. -/
  covered : Covered d role s

/-- A part of a document that is decoded. -/
structure Known (d : Facts) (role : Role) (s : σ) : Prop where
  /-- The keys that lead to it are names of fields. -/
  placed : Placed s
  /-- It is of the document. -/
  covered : Covered d role s

theorem Known.seen {s : σ} (h : Known d role s) : Seen d role s := ⟨fun _ => h.placed, h.covered⟩

/-- An entry of a map of a document. -/
structure Inside (d : Facts) (role : Role) (e : Except Failure Key × σ) : Prop where
  /-- The key is a text of the document, and leads to the value. -/
  key : Yields d (fun k => (d.quiet → k.Silent) ∧ (k.Silent → Placed e.2)) e.1
  /-- The value stands for what the key says. -/
  covered {k : Key} {name : String} (hk : e.1 = .ok k) (hname : k.Leads name) :
    Covered d (role.field name) e.2

/-- What may be the type of a module of the given entries. -/
def TypeOf [Source σ] (es : Entries σ) (c : Content) : Prop :=
  ∃ e ∈ es, e.1 = .ok (.name "type") ∧ Source.content e.2 = .ok c

/-- The entries of a map of a document. -/
structure Opened [Source σ] (d : Facts) (role : Role) (es : Entries σ) : Prop where
  /-- Each of them is an entry of the document. -/
  inside : ∀ e ∈ es, Inside d role e
  /-- A field that they have to have is there, or the document lacks it. -/
  lacks {name : String} (h : Demands (TypeOf es) role name) (hlacking : Lacking es name) :
    d.lacks name

/-- The value of an entry is seen as what its key says. -/
theorem Inside.seen {k : Key} {value : σ} (h : Inside d role (.ok k, value)) {name : String}
    (hname : k.Leads name) : Seen d (role.field name) value :=
  ⟨fun hquiet => h.key.2 (h.key.1 hquiet), h.covered rfl hname⟩

/-- The value of an entry is known where its key is silent. -/
theorem Inside.known {k : Key} {value : σ} (h : Inside d role (.ok k, value)) {name : String}
    (hname : k.Leads name) (hk : k.Silent) : Known d (role.field name) value :=
  ⟨h.key.2 hk, h.covered rfl hname⟩

/-- Some field is always led to. -/
theorem Key.exists_leads (k : Key) : ∃ name, k.Leads name := by
  cases k with
  | name s => exact ⟨s, .inl rfl⟩
  | index n => exact ⟨"", .inr ⟨n, rfl⟩⟩

end

end Decoding

/-- Content of a document, by what it stands for there. -/
inductive Content.Covered (d : Facts) : Role → Content → Prop where
  /-- Nothing. -/
  | null {role : Role} : Covered d role .null
  /-- A truth value. -/
  | boolean {role : Role} (b : Bool) : Covered d role (.boolean b)
  /-- An integer. -/
  | integer {role : Role} (n : Int) : Covered d role (.integer n)
  /-- Any other number. -/
  | floating {role : Role} (x : Number.Floating) : Covered d role (.floating x)
  /-- A text. -/
  | text {role : Role} {s : String} (h : d.quiet → Silent s) : Covered d role (.text s)
  /-- A list, of items or of fields in their order. -/
  | list {role : Role} {items : List Content}
    (h : ∀ c ∈ items, ∀ name, Covered d (role.field name) c) : Covered d role (.list items)
  /-- Entries, that have the fields that they have to have unless the document lacks them. -/
  | map {role : Role} {es : List (Content × Content)} (hkeys : ∀ e ∈ es, Covered d .free e.1)
    (hvalues : ∀ e ∈ es, ∀ name, e.1.Leads name → Covered d (role.field name) e.2)
    (hlacks : ∀ name, Demands (fun c => (.text "type", c) ∈ es) role name →
      (∀ e ∈ es, e.1 ≠ .text name) → d.lacks name) :
    Covered d role (.map es)

namespace Decoding

/-- Languages whose parts are seen accurately. -/
class AccurateSource (σ : Type) [Source σ] [Surveyed σ] : Prop where
  /-- A text. -/
  text {d : Facts} {role : Role} {s : σ} (h : Seen d role s) : Reports d (Source.text s)
  /-- A truth value. -/
  boolean {d : Facts} {role : Role} {s : σ} (h : Seen d role s) : Reports d (Source.boolean s)
  /-- The items of a list. -/
  items {d : Facts} {role : Role} {s : σ} (h : Known d role s) :
    Yields d (fun items => ∀ i ∈ items, ∀ name, Known d (role.field name) i) (Source.items s)
  /-- The entries of a map. -/
  entries {d : Facts} {role : Role} {s : σ} (h : Known d role s) :
    Yields d (Opened d role) (Source.entries s)
  /-- The items or entries of a record. -/
  layout {d : Facts} {role : Role} {s : σ} (h : Known d role s) :
    Yields d (fun
      | .list items => ∀ i ∈ items, ∀ name, Known d (role.field name) i
      | .named es => Opened d role es) (Source.layout s)
  /-- A word. -/
  variant {d : Facts} {role : Role} {s : σ} (h : Seen d role s) :
    Yields d (fun w => (d.quiet → w.1.Silent) ∧ Reports d w.2) (Source.variant s)
  /-- What is taken over. -/
  content {d : Facts} {role : Role} {s : σ} (h : Seen d role s) :
    Yields d (Content.Covered d role) (Source.content s)
  /-- A JSON value. -/
  json {d : Facts} {role : Role} {s : σ} (h : Seen d role s) : Reports d (Source.json s)
  /-- What is passed over. -/
  skip {d : Facts} {s : σ} : Reports d (Source.skip s)
  /-- The place of a part. -/
  locate {d : Facts} {s : σ} (h : Surveyed.Placed s) {f : Failure} (hf : f.Accurate d) :
    (Source.locate s f).Accurate d

variable {σ ρ : Type} [Source σ] [Surveyed σ] [AccurateSource σ] {role : Role} {s : σ}

/-- A decoder that fails accurately on every part of a document that stands for something. -/
def Reads (d : Facts) (role : Role) (read : σ → Except Failure α) : Prop :=
  ∀ s, Known d role s → Reports d (read s)

omit [Source σ] [AccurateSource σ] in
theorem Reads.assign {read : σ → Except Failure α} (h : Reads d role read) (g : α → β) :
    Reads d role fun s => read s >>= fun a => pure (g a) :=
  fun s hs => Reports.assign (h s hs) g

theorem reads_text : Reads d role (Source.text (σ := σ)) := fun _ hs => AccurateSource.text hs.seen

theorem reads_boolean : Reads d role (Source.boolean (σ := σ)) :=
  fun _ hs => AccurateSource.boolean hs.seen

/-- A decoder whose failures are at the place of its part. -/
theorem Yields.located {x : Except Failure α} (hs : Surveyed.Placed s) (h : Yields d P x) :
    Yields d P (located s x) := by
  cases x with
  | error f => exact AccurateSource.locate hs h
  | ok a => exact h

/-! ## Words -/

/-- A word that is not among the known ones is reported with these, which are silent. -/
theorem reports_findWord {words : List (Word α)}
    (hwords : ∀ n ∈ words.flatMap Word.names, Silent n) {key : Key}
    (hkey : d.quiet → key.Silent) : Reports d (findWord words key) := by
  cases key with
  | name s =>
    rw [findWord]
    split
    · trivial
    · exact .fault fun hquiet => Fault.silent_unknownVariant (hkey hquiet) hwords
  | index n =>
    rw [findWord]
    split
    · trivial
    · exact .fault fun _ => Fault.silent_invalidValue (silent_integer n) (by decide)

theorem reads_readWord {words : List (Word α)}
    (hwords : ∀ n ∈ words.flatMap Word.names, Silent n) :
    Reads d role (readWord (σ := σ) words) := by
  intro s hs
  refine .located hs.placed ?_
  refine (AccurateSource.variant hs.seen).bind fun w _ hw => ?_
  refine (reports_findWord hwords hw.1).bind fun a _ _ => ?_
  exact hw.2.bind fun _ _ _ => trivial

/-! ## Records -/

/-- The name of a field and whether it is required. -/
def Field.label (f : Field σ ρ) : String × Bool := (f.name, f.required)

variable {demanded : String → Prop} {fields : List (Field σ ρ)}

/-- Fields that are decoded accurately, under names that are silent. -/
structure Accounted (d : Facts) (role : Role) (demanded : String → Prop)
    (fields : List (Field σ ρ)) : Prop where
  /-- Their names; those that are required are demanded. -/
  labels : ∀ l ∈ fields.map Field.label, Silent l.1 ∧ (l.2 = true → demanded l.1)
  /-- What stands under them. -/
  read : ∀ f ∈ fields, ∀ r, Reads d (role.field f.name) fun s => f.read s r

namespace Accounted

omit [Source σ] [AccurateSource σ] in
/-- The names of the fields are silent. -/
theorem silent_name (h : Accounted d role demanded fields) {f : Field σ ρ} (hf : f ∈ fields) :
    Silent f.name :=
  (h.labels f.label (List.mem_map_of_mem hf)).1

omit [Source σ] [AccurateSource σ] in
/-- What a record requires is demanded of it. -/
theorem demanded_name (h : Accounted d role demanded fields) {f : Field σ ρ} (hf : f ∈ fields)
    (hrequired : f.required = true) : demanded f.name :=
  (h.labels f.label (List.mem_map_of_mem hf)).2 hrequired

omit [Source σ] [AccurateSource σ] in
/-- The key of a field is silent, and leads to it. -/
theorem of_findField (h : Accounted d role demanded fields) {key : Key} {f : Field σ ρ}
    (hf : findField fields key = some f) : key.Silent ∧ key.Leads f.name := by
  have hname := h.silent_name (mem_of_findField hf)
  cases key with
  | name s =>
    obtain rfl := name_of_findField hf
    exact ⟨hname, .inl rfl⟩
  | index n => exact ⟨trivial, .inr ⟨n, rfl⟩⟩

omit [Source σ] [AccurateSource σ] in
/-- A key that is not known is quoted, beside names that are silent. -/
theorem silent_unknownKey (h : Accounted d role demanded fields) {key : Key}
    (hkey : key.Silent) : Silent (unknownKey fields key).message := by
  cases key with
  | name s =>
    refine Fault.silent_unknownField hkey fun n hn => ?_
    obtain ⟨f, hf, rfl⟩ := List.mem_map.1 hn
    exact h.silent_name hf
  | index n => exact Fault.silent_invalidValue (silent_integer n) (by decide)

end Accounted

omit [Source σ] [Surveyed σ] [AccurateSource σ] in
/-- A key that is not known does not make a field missing. -/
theorem unknownKey_ne_missingField {key : Key} (name : String) :
    unknownKey fields key ≠ .missingField name := by
  intro h
  cases key <;> cases h

/-- Fields that are decoded by name: each that is given stands among the names that were seen. -/
theorem yields_readNamed (hfields : Accounted d role demanded fields) {strict : Bool}
    {es : Entries σ} (hes : ∀ e ∈ es, Inside d role e) (seen : List String) (r : ρ) :
    Yields d (fun found => (∀ name ∈ seen, name ∈ found.1) ∧
        ∀ f ∈ fields, ¬ Lacking es f.name → f.name ∈ found.1)
      (readNamed fields strict seen r es) := by
  induction es generalizing seen r with
  | nil => exact ⟨fun _ => id, fun f _ h => absurd (List.forall_mem_nil _) h⟩
  | cons e rest ih =>
    obtain ⟨key, value⟩ := e
    have hvalue : Inside d role (key, value) := hes _ List.mem_cons_self
    have hrest (seen : List String) (r : ρ) :=
      ih (fun e he => hes e (List.mem_cons_of_mem _ he)) seen r
    rw [readNamed]
    refine hvalue.key.bind fun key hkey hsilent => ?_
    subst hkey
    split
    · rename_i f hf
      split
      · exact .fault fun _ =>
          Fault.silent_duplicateField (hfields.silent_name (mem_of_findField hf))
      · obtain ⟨hname, hleads⟩ := hfields.of_findField hf
        have hknown := hvalue.known hleads hname
        refine (hfields.read f (mem_of_findField hf) r value hknown).bind fun r _ _ => ?_
        refine (hrest (f.name :: seen) r).mono fun found _ hfound => ⟨?_, ?_⟩
        · exact fun name hname => hfound.1 name (List.mem_cons_of_mem _ hname)
        -- A field that is given is this one, or is given further on.
        · intro g hg hlacking
          rw [lacking_cons_iff, not_and_or, not_not] at hlacking
          rcases hlacking with hkey | hlacking
          · cases hkey
            exact hfound.1 g.name (name_of_findField hf ▸ List.mem_cons_self)
          · exact hfound.2 g hg hlacking
    · rename_i hf
      split
      · exact .fault (fun hquiet => hfields.silent_unknownKey (hsilent.1 hquiet))
          unknownKey_ne_missingField
      · refine AccurateSource.skip.bind fun _ _ _ => (hrest seen r).mono fun found _ hfound => ?_
        refine ⟨hfound.1, fun g hg hlacking => ?_⟩
        rw [lacking_cons_iff, not_and_or, not_not] at hlacking
        rcases hlacking with hkey | hlacking
        · cases hkey
          exact absurd (beq_self_eq_true g.name) (List.find?_eq_none.1 hf g hg)
        · exact hfound.2 g hg hlacking

/-- A record of entries lacks a field only if it is demanded and not among them. -/
theorem reports_readEntries (hfields : Accounted d role demanded fields) {strict : Bool}
    {es : Entries σ} (hes : ∀ e ∈ es, Inside d role e)
    (hlacks : ∀ name, demanded name → Lacking es name → d.lacks name) (start : ρ) :
    Reports d (readEntries fields strict start es) := by
  refine (yields_readNamed hfields hes [] start).bind fun found _ hfound => ?_
  refine Yields.bind (P := fun _ => True) ?_ fun _ _ _ => trivial
  unfold checkRequired
  split
  · rename_i f hf
    have hmem := List.mem_of_find?_eq_some hf
    have hcheck := List.find?_some hf
    rw [Bool.and_eq_true, decide_eq_true_eq] at hcheck
    refine .missing (hlacks f.name (hfields.demanded_name hmem hcheck.1) ?_)
    exact not_not.1 fun hlacking => hcheck.2 (hfound.2 f hmem hlacking)
  · trivial

omit [AccurateSource σ] in
/-- The fields of a record may be given by a list, in their order. -/
theorem reports_readListed
    (hread : ∀ f ∈ fields, ∀ r, Reads d (role.field f.name) fun s => f.read s r) {items : List σ}
    (hitems : ∀ i ∈ items, ∀ name, Known d (role.field name) i) (place : Nat) (r : ρ) :
    Reports d (readListed place r fields items) := by
  induction fields generalizing items place r with
  | nil =>
    cases items with
    | nil => trivial
    | cons value rest =>
      rw [readListed]
      split_ifs
      · exact .fault fun _ => Fault.silent_invalidLength _
      · trivial
  | cons f fields ih =>
    have hrest (items : List σ) (hitems : ∀ i ∈ items, ∀ name, Known d (role.field name) i) :=
      ih (fun f hf => hread f (List.mem_cons_of_mem _ hf)) hitems
    cases items with
    | nil =>
      rw [readListed]
      split_ifs
      · exact .fault fun _ => Fault.silent_invalidLength _
      · exact hrest [] hitems (place + 1) r
    | cons value rest =>
      have hvalue := hitems value List.mem_cons_self f.name
      refine (hread f List.mem_cons_self r value hvalue).bind fun r _ _ => ?_
      exact hrest rest (fun i hi => hitems i (List.mem_cons_of_mem _ hi)) (place + 1) r

/-- A record is decoded accurately if its fields are, and required where they have to be there. -/
theorem reads_readRecord (hfields : Accounted d role (· ∈ role.required) fields) (strict : Bool)
    (start : ρ) : Reads d role (readRecord fields strict start) := by
  intro s hs
  refine .located hs.placed ((AccurateSource.layout hs).bind fun layout _ hlayout => ?_)
  cases layout with
  | list items => exact reports_readListed hfields.read hlayout 0 start
  | named es =>
    refine reports_readEntries hfields hlayout.inside (fun name hname hlacking => ?_) start
    exact hlayout.lacks (.always hname) hlacking

/-! ## Lists and maps -/

theorem reads_readList {read : σ → Except Failure α} (h : ∀ name, Reads d (role.field name) read) :
    Reads d role (readList read) := by
  intro s hs
  refine .located hs.placed ((AccurateSource.items hs).bind fun items _ hitems => ?_)
  exact (Yields.mapM fun i hi => h "" i (hitems i hi "")).reports

theorem reads_readTextMap : Reads d role (readTextMap (σ := σ)) := by
  have hentries (es : Entries σ) (hes : ∀ e ∈ es, Inside d role e) :
      Reports d (readTextEntries es) := by
    induction es with
    | nil => trivial
    | cons e rest ih =>
      obtain ⟨key, value⟩ := e
      have hvalue : Inside d role (key, value) := hes _ List.mem_cons_self
      rw [readTextEntries]
      refine hvalue.key.bind fun key hkey _ => ?_
      subst hkey
      cases key with
      | name name =>
        refine (AccurateSource.text (hvalue.seen (.inl rfl))).bind fun _ _ _ => ?_
        exact Reports.assign (ih fun e he => hes e (List.mem_cons_of_mem _ he)) _
      | index n =>
        exact .fault fun _ => Fault.silent_invalidType (silent_integer n) (by decide)
  intro s hs
  refine .located hs.placed ((AccurateSource.entries hs).bind fun es _ hes => ?_)
  exact Reports.assign (hentries es hes.inside) _

end Decoding

end WorkflowEngine
