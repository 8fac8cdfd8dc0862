import WorkflowEngine.Document
import WorkflowEngine.Proofs.Decoding.Accounts
import WorkflowEngine.Proofs.Yaml.Trees

/-!
# Failures of workflow documents

Whether a document lacks a required field is told from the words of the failure. These words are
found where they come from the failure itself, and then the field is named that is missing. They may
also come from a text of the document that the failure quotes: a document is told apart rightly if
none of its texts has "missing field " in it.
-/

namespace WorkflowEngine

open Decoding

/-- A document that is no list of modules fails accurately. -/
theorem Yaml.accurate_of_readText {text : String} {f : Failure}
    (h : Yaml.readText readDocument text = .error f) :
    f.Accurate (Yaml.Document.ofText text).tree.facts := by
  have hknown : Known (Yaml.Document.ofText text).tree.facts .document
      (⟨".", (Yaml.Document.ofText text).tree⟩ : Yaml.Part) :=
    ⟨(by decide : Silent "."), Yaml.Tree.covered_facts _⟩
  have hreports : Reports (Yaml.Document.ofText text).tree.facts
      (Yaml.readText readDocument text) := by
    refine (reads_readDocument _ hknown).bind fun specs _ _ => ?_
    split
    · exact Yaml.Part.yields_unreadable _
    · trivial
  rw [h] at hreports
  exact hreports

namespace WorkflowDocument

/-! ## Names in messages -/

section Occurrences

variable {w before rest : List Char} {c : Char}

/-- Words without their last character stand where the words do. -/
theorem dropLast_prefix (before w rest : List Char) :
    before ++ w.dropLast <+: before ++ w ++ rest := by
  rw [List.append_assoc, List.prefix_append_right_inj]
  exact (List.dropLast_prefix w).trans (List.prefix_append w rest)

/-- An occurrence at the beginning does not reach to the end of a later one. -/
theorem prefix_dropLast_iff :
    w <+: c :: (before ++ w ++ rest) ↔ w <+: c :: (before ++ w.dropLast) := by
  have hshort : c :: (before ++ w.dropLast) <+: c :: (before ++ w ++ rest) :=
    List.cons_prefix_cons.2 ⟨rfl, dropLast_prefix before w rest⟩
  constructor
  · intro h
    refine List.prefix_of_prefix_length_le h hshort ?_
    simp only [List.length_cons, List.length_append, List.length_dropLast]
    omega
  · exact fun h => h.trans hshort

theorem not_infix_dropLast (hw : w ≠ []) : ¬ w <:+: w.dropLast := by
  intro h
  have hlength := h.length_le
  have hpos := List.length_pos_iff.2 hw
  rw [List.length_dropLast] at hlength
  omega

/-- What follows the first occurrence of a text: up to its last character the text does not stand
before. -/
theorem after?_eq_some_iff (hw : w ≠ []) {s : List Char} :
    after? w s = some rest ↔ ∃ before, s = before ++ w ++ rest ∧ ¬ w <:+: before ++ w.dropLast := by
  induction s with
  | nil =>
    rw [after?, if_neg (by simpa using hw)]
    refine iff_of_false nofun ?_
    rintro ⟨before, h, _⟩
    rw [List.nil_eq, List.append_eq_nil_iff, List.append_eq_nil_iff] at h
    exact hw h.1.2
  | cons c s ih =>
    rw [after?]
    split_ifs with hc
    · obtain ⟨rest', hrest'⟩ := List.isPrefixOf_iff_prefix.1 hc
      rw [← hrest', List.drop_left, Option.some_inj]
      constructor
      · rintro rfl
        exact ⟨[], rfl, not_infix_dropLast hw⟩
      · rintro ⟨before, h, hfirst⟩
        cases before with
        | nil => exact List.append_cancel_left h
        | cons d before =>
          have hprefix : w <+: d :: (before ++ w ++ rest) := ⟨rest', h⟩
          exact absurd (prefix_dropLast_iff.1 hprefix).isInfix hfirst
    · rw [List.isPrefixOf_iff_prefix] at hc
      refine Iff.trans ih ⟨?_, ?_⟩
      · rintro ⟨before, rfl, hfirst⟩
        refine ⟨c :: before, rfl, fun h => ?_⟩
        rcases List.infix_cons_iff.1 h with h | h
        · exact hc (prefix_dropLast_iff.2 h)
        · exact hfirst h
      · rintro ⟨before, h, hfirst⟩
        cases before with
        | nil => exact absurd ⟨rest, h.symm⟩ hc
        | cons d before =>
          cases h
          exact ⟨before, rfl, fun h => hfirst (List.infix_cons h)⟩

end Occurrences

/-- The words before the name of a missing field, with the mark that opens it. -/
def marker : List Char := "missing field \x60".toList

/-- Whether a message speaks of a missing field of a name: where these words stand in it first, the
name follows up to the next mark. -/
def Mentions (message name : String) : Prop :=
  ∃ before after, message.toList = before ++ marker ++ name.toList ++ '\x60' :: after ∧
    ¬ marker <:+: before ++ marker.dropLast ∧ '\x60' ∉ name.toList

/-- The marker is not empty, as splitting a message there demands. -/
theorem marker_ne_nil : marker ≠ [] := by decide

/-- The name is what stands before the next mark. -/
theorem takeWhile_eq_name_iff {rest : List Char} {name : String} :
    (if rest.contains '\x60' then some (String.ofList (rest.takeWhile (· != '\x60'))) else none) =
        some name ↔
      ∃ after, rest = name.toList ++ '\x60' :: after ∧ '\x60' ∉ name.toList := by
  have htake {before after : List Char} (h : '\x60' ∉ before) :
      (before ++ '\x60' :: after).takeWhile (· != '\x60') = before := by
    have hall : ∀ c ∈ before, (c != '\x60') = true := fun c hc => bne_iff_ne.2 fun he => h (he ▸ hc)
    rw [List.takeWhile_append_of_pos hall, List.takeWhile_cons_of_neg (by decide), List.append_nil]
  constructor
  · intro h
    split_ifs at h with hmark
    obtain ⟨before, after, rfl, hbefore⟩ :=
      List.eq_append_cons_of_mem (List.contains_iff_mem.1 hmark)
    rw [htake hbefore] at h
    cases h
    rw [String.toList_ofList]
    exact ⟨after, rfl, hbefore⟩
  · rintro ⟨after, rfl, hname⟩
    have hmark : '\x60' ∈ name.toList ++ '\x60' :: after :=
      List.mem_append_right _ List.mem_cons_self
    rw [if_pos (List.contains_iff_mem.2 hmark), htake hname, String.ofList_toList]

/-- The name of a missing field is found in exactly the messages that mention it. -/
theorem missingField?_eq_some_iff {message name : String} :
    missingField? message = some name ↔ Mentions message name := by
  change (after? marker message.toList).bind _ = some name ↔ _
  rw [Option.bind_eq_some_iff]
  constructor
  · rintro ⟨rest, hrest, hname⟩
    obtain ⟨before, hmessage, hfirst⟩ := (after?_eq_some_iff marker_ne_nil).1 hrest
    obtain ⟨after, rfl, hmark⟩ := takeWhile_eq_name_iff.1 hname
    exact ⟨before, after, hmessage.trans (List.append_assoc ..).symm, hfirst, hmark⟩
  · rintro ⟨before, after, hmessage, hfirst, hmark⟩
    rw [List.append_assoc] at hmessage
    exact ⟨_, (after?_eq_some_iff marker_ne_nil).2 ⟨before, hmessage, hfirst⟩,
      takeWhile_eq_name_iff.2 ⟨after, rfl, hmark⟩⟩

/-- A silent message does not speak of a missing field. -/
theorem not_mentions_of_silent {message name : String} (h : Silent message) :
    ¬ Mentions message name := by
  rintro ⟨before, after, hmessage, _, _⟩
  have hwords : missingWords <:+: marker := by decide
  refine h (hwords.trans ?_)
  rw [hmessage, List.append_assoc]
  exact List.infix_append before marker (name.toList ++ '\x60' :: after)

/-- A missing field is spoken of in what is said of it, whatever silent place stands before. -/
theorem mentions_of_missing {f : Failure} {name : String} (hf : f.fault = .missingField name)
    (hplace : ∀ place ∈ f.place, Silent place) (hname : '\x60' ∉ name.toList) :
    Mentions f.message name := by
  have hfault : (Fault.missingField name).message.toList = marker ++ name.toList ++ ['\x60'] := by
    change ("missing field \x60" ++ name ++ "\x60").toList = _
    have hmark : "\x60".toList = ['\x60'] := by decide
    rw [String.toList_append, String.toList_append, hmark]
    unfold marker
    rfl
  have hfirst := not_infix_dropLast marker_ne_nil
  unfold Failure.message
  rw [hf]
  split
  · rename_i place hsome
    split_ifs
    · exact ⟨[], [], hfault, hfirst, hname⟩
    · refine ⟨place.toList ++ [':', ' '], [], ?_, ?_, hname⟩
      · rw [String.toList_append, String.toList_append, hfault]
        simp
      · have hmarker : missingWords <:+: marker := by decide
        rw [List.append_assoc, List.cons_append, infix_append_cons_iff (by decide)]
        rintro (h | h)
        · exact hplace place hsome (hmarker.trans h)
        · revert h
          decide
  · exact ⟨[], [], hfault, hfirst, hname⟩

/-! ## Errors of documents -/

/-- A text that is not blank and cannot be read is reported by the message of its failure. -/
theorem parse_of_readText {text : String} (hblank : (Text.trim text).isEmpty = false) {f : Failure}
    (hf : Yaml.readText readDocument text = .error f) :
    parse text = .error (.read (faultOf f)) := by
  rw [parse, hf, hblank]
  rfl

/-- A failure is reported as a missing field exactly if its message mentions one. -/
theorem faultOf_eq_missingField_iff {f : Failure} {name : String} :
    faultOf f = .missingField name ↔ Mentions f.message name := by
  rw [← missingField?_eq_some_iff, faultOf]
  cases missingField? f.message with
  | none => exact iff_of_false nofun nofun
  | some found =>
    rw [Option.some_inj]
    exact ReadFault.missingField.injEq found name ▸ Iff.rfl

/-- Any other failure is reported as an invalid document, with its message. -/
theorem faultOf_of_not_mentions {f : Failure} (h : ∀ name, ¬ Mentions f.message name) :
    faultOf f = .invalidDocument f.message := by
  have hnone : missingField? f.message = none :=
    Option.eq_none_iff_forall_ne_some.2 fun name hname => h name (missingField?_eq_some_iff.1 hname)
  rw [faultOf, hnone]

/-- No name that is required has a grave accent in it, which would end it in a message. -/
theorem notMem_of_requiredNames : ∀ name ∈ requiredNames, '\x60' ∉ name.toList := by decide

/-- How documents that cannot be decoded are told apart. A field that is missing is named, and some
record of the document that has to have it does not have it. Where nothing is missing the document
is wrong otherwise, unless a text of it has "missing field " in it: then its failure speaks of a
missing field just if these words, quoted or not, stand in the message before a mark, and another
mark follows. -/
theorem parse_of_readText_eq_error {text : String} (hblank : (Text.trim text).isEmpty = false)
    {f : Failure} (hf : Yaml.readText readDocument text = .error f) :
    (∀ name, f.fault = .missingField name →
      (Yaml.Document.ofText text).tree.Wants .document name ∧
        parse text = .error (.read (.missingField name))) ∧
    ((Yaml.Document.ofText text).tree.Quiet →
      (∀ name, parse text = .error (.read (.missingField name)) → f.fault = .missingField name) ∧
      ((∀ name, f.fault ≠ .missingField name) →
        parse text = .error (.read (.invalidDocument f.message)))) ∧
    (∀ name, parse text = .error (.read (.missingField name)) ↔ Mentions f.message name) ∧
    ((∀ name, ¬ Mentions f.message name) →
      parse text = .error (.read (.invalidDocument f.message))) := by
  have haccurate := Yaml.accurate_of_readText hf
  have hparse := parse_of_readText hblank hf
  have hmentions (name : String) :
      parse text = .error (.read (.missingField name)) ↔ Mentions f.message name := by
    rw [hparse, Except.error.injEq, Error.read.injEq, faultOf_eq_missingField_iff]
  have hmissing (name : String) (hfault : f.fault = .missingField name) :
      (Yaml.Document.ofText text).tree.Wants .document name ∧
        parse text = .error (.read (.missingField name)) := by
    obtain ⟨hwants, hplace⟩ := haccurate.missing hfault
    refine ⟨hwants, (hmentions name).2 ?_⟩
    exact mentions_of_missing hfault hplace (notMem_of_requiredNames name hwants.mem_requiredNames)
  have hsilent (hquiet : (Yaml.Document.ofText text).tree.Quiet)
      (hother : ∀ name, f.fault ≠ .missingField name) (name : String) :
      ¬ Mentions f.message name := by
    obtain ⟨hplace, hmessage⟩ := haccurate.other hother hquiet
    exact not_mentions_of_silent (Failure.silent_message hplace hmessage)
  have hinvalid (h : ∀ name, ¬ Mentions f.message name) :
      parse text = .error (.read (.invalidDocument f.message)) := by
    rw [hparse, faultOf_of_not_mentions h]
  refine ⟨hmissing, fun hquiet => ⟨fun name hname => ?_, fun hother => ?_⟩, hmentions, hinvalid⟩
  · by_cases hfault : ∃ name', f.fault = .missingField name'
    · obtain ⟨name', hfault⟩ := hfault
      obtain ⟨_, hname'⟩ := hmissing name' hfault
      rw [hname'] at hname
      cases hname
      exact hfault
    · exact absurd ((hmentions name).1 hname) (hsilent hquiet (not_exists.1 hfault) name)
  · exact hinvalid (hsilent hquiet hother)

/-- A module without a name, and one of a type that does not exist. -/
theorem parse_withoutId_withoutType :
    parse "modules: [\x7btype: tool\x7d]" = .error (.read (.missingField "id")) ∧
    parse "modules: [\x7bid: a, type: none\x7d]" = .error (.read (.invalidDocument
      (Failure.mk (some "modules[0]")
        (.unknownVariant "none" (KindTag.words.flatMap Word.names))).message)) := by
  have hmissing := parse_of_readText_eq_error
    (by decide +kernel : (Text.trim "modules: [\x7btype: tool\x7d]").isEmpty = false)
    (by decide +kernel : Yaml.readText readDocument "modules: [\x7btype: tool\x7d]" =
      .error ⟨some "modules[0]", .missingField "id"⟩)
  have hother := parse_of_readText_eq_error
    (by decide +kernel : (Text.trim "modules: [\x7bid: a, type: none\x7d]").isEmpty = false)
    (by decide +kernel : Yaml.readText readDocument "modules: [\x7bid: a, type: none\x7d]" =
      .error ⟨some "modules[0]", .unknownVariant "none" (KindTag.words.flatMap Word.names)⟩)
  exact ⟨(hmissing.1 "id" rfl).2, (hother.2.1 (by decide +kernel)).2 nofun⟩

/-- A type that quotes the words names a field that no module has. -/
theorem parse_quotedMarker :
    Yaml.readText readDocument "modules: [\x7bid: a, type: \"missing field \x60foo\x60\"\x7d]" =
      .error ⟨some "modules[0]",
        .unknownVariant "missing field \x60foo\x60" (KindTag.words.flatMap Word.names)⟩ ∧
    parse "modules: [\x7bid: a, type: \"missing field \x60foo\x60\"\x7d]" =
      .error (.read (.missingField "foo")) :=
  ⟨by decide +kernel, by decide +kernel⟩

end WorkflowDocument

end WorkflowEngine
